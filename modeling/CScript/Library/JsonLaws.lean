/-
When a value survives being written and read.

A string keeps all its bytes but 8 and 12, which come back as the letters of their
escapes.  A stable text depends on the order in which keys were inserted where two keys
of one object are the same up to their first zero bytes, and only there.
-/

import CScript.Library.JsonOrder
import CScript.Library.JsonReader

namespace CScript.StdJson

open Foundation

/-! ### What a clean value is read as -/

theorem readByte_clean {text : List UInt8} (clean : CleanBytes text) :
    text.map readByte = text := by
  conv_rhs => rw [← List.map_id text]
  apply List.map_congr_left
  intro c member
  rw [readByte, if_neg (clean c member).1, if_neg (clean c member).2]
  rfl

theorem cleanBytes_readByte (text : List UInt8) : CleanBytes (text.map readByte) := by
  intro c member
  obtain ⟨d, -, rfl⟩ := List.mem_map.mp member
  unfold readByte
  split
  · decide
  · rename_i back
    split
    · decide
    · rename_i feed
      exact ⟨back, feed⟩

theorem assignAll_distinct (out members : List (List UInt8 × JsonValue))
    (distinct : ((out ++ members).map Prod.fst).Nodup) :
    assignAll out members = out ++ members := by
  induction members generalizing out with
  | nil => rw [assignAll, List.foldl_nil, List.append_nil]
  | cons member rest ih =>
      obtain ⟨key, held⟩ := member
      have absent : OrderedMap.lookup OrderedMap.equal out key = none := by
        apply OrderedMap.lookup_eq_none_iff.mpr
        intro item present
        apply OrderedMap.equal_of_ne
        rintro same
        rw [List.map_append, List.nodup_append] at distinct
        exact distinct.2.2 item.1 (List.mem_map_of_mem present) key
          (List.mem_map_of_mem (f := Prod.fst) List.mem_cons_self) same
      have others := ih (out ++ [(key, held)]) (by simpa using distinct)
      rw [assignAll, List.foldl_cons, OrderedMap.put_of_absent absent]
      rw [List.append_assoc, List.singleton_append] at others
      exact others

mutual

theorem readBack_clean {numbers : NumberText} :
    ∀ value, Plain numbers value → Clean value → readBack value = value
  | .string chars, _, clean => congrArg JsonValue.string (readByte_clean clean)
  | .array elements, plain, clean =>
      congrArg JsonValue.array (readElements_clean elements plain clean)
  | .object members, plain, clean => by
      have same := readMembers_clean members plain.2 clean.1 clean.2
      rw [readBack, same, assignAll_distinct [] members plain.1, List.nil_append]
  | .null, _, _ | .boolean _, _, _ | .number _, _, _ => rfl

theorem readElements_clean {numbers : NumberText} :
    ∀ elements, PlainElements numbers elements →
      ThroughoutElements CleanBytes (fun keys => ∀ key ∈ keys, CleanBytes key) elements →
        readElements elements = elements
  | [], _, _ => rfl
  | element :: rest, plain, clean => by
      rw [readElements, readBack_clean element plain.1 clean.1,
        readElements_clean rest plain.2 clean.2]

theorem readMembers_clean {numbers : NumberText} :
    ∀ members, PlainMembers numbers members →
      (∀ key ∈ members.map Prod.fst, CleanBytes key) →
        ThroughoutMembers CleanBytes (fun keys => ∀ key ∈ keys, CleanBytes key) members →
          readMembers members = members
  | [], _, _, _ => rfl
  | (key, held) :: rest, plain, keys, clean => by
      have others := readMembers_clean rest plain.2
        (fun key member => keys key (List.mem_cons_of_mem _ member)) clean.2
      rw [readMembers, readByte_clean (keys key List.mem_cons_self),
        readBack_clean held plain.1 clean.1, others]

end

theorem mem_put {out : List (List UInt8 × JsonValue)} {key : List UInt8} {value : JsonValue}
    {member : List UInt8 × JsonValue}
    (present : member ∈ OrderedMap.put OrderedMap.equal out key value) :
    member ∈ out ∨ member = (key, value) := by
  induction out with
  | nil => exact .inr (List.mem_singleton.mp present)
  | cons item rest ih =>
      obtain ⟨held, old⟩ := item
      unfold OrderedMap.put at present
      split at present
      · rename_i matched
        obtain rfl : held = key := of_decide_eq_true matched
        rcases List.mem_cons.mp present with rfl | present
        · exact .inr rfl
        · exact .inl (List.mem_cons_of_mem _ present)
      · rcases List.mem_cons.mp present with rfl | present
        · exact .inl List.mem_cons_self
        · rcases ih present with earlier | new
          · exact .inl (List.mem_cons_of_mem _ earlier)
          · exact .inr new

theorem mem_assignAll {out members : List (List UInt8 × JsonValue)}
    {member : List UInt8 × JsonValue} (present : member ∈ assignAll out members) :
    member ∈ out ∨ member ∈ members := by
  induction members generalizing out with
  | nil => exact .inl present
  | cons first rest ih =>
      rcases ih present with earlier | later
      · rcases mem_put earlier with old | rfl
        · exact .inl old
        · exact .inr List.mem_cons_self
      · exact .inr (List.mem_cons_of_mem _ later)

mutual

theorem clean_readBack : ∀ value, Clean (readBack value)
  | .string chars => cleanBytes_readByte chars
  | .array elements => throughoutElements_iff.mpr (clean_readElements elements)
  | .object members => by
      constructor
      · intro key present
        obtain ⟨member, assigned, rfl⟩ := List.mem_map.mp present
        rcases mem_assignAll assigned with none | read
        · cases none
        · exact (clean_readMembers members member read).1
      · apply throughoutMembers_iff.mpr
        intro member assigned
        rcases mem_assignAll assigned with none | read
        · cases none
        · exact (clean_readMembers members member read).2
  | .null | .undefined | .boolean _ | .number _ | .bigint | .set _ | .date _ | .other _ => trivial

theorem clean_readElements : ∀ elements, ∀ element ∈ readElements elements, Clean element
  | [] => nofun
  | element :: rest => by
      rw [readElements, List.forall_mem_cons]
      exact ⟨clean_readBack element, clean_readElements rest⟩

theorem clean_readMembers :
    ∀ members, ∀ member ∈ readMembers members, CleanBytes member.1 ∧ Clean member.2
  | [] => nofun
  | (key, held) :: rest => by
      rw [readMembers, List.forall_mem_cons]
      exact ⟨⟨cleanBytes_readByte key, clean_readBack held⟩, clean_readMembers rest⟩

end

/-! ### Stable texts -/

/-- The keys of every object as `keys.sort()` leaves them. -/
abbrev sortKeys (value : JsonValue) : JsonValue :=
  arrange (KeySort.sortByKey comesAfter) value

theorem reordered_sortKeys (value : JsonValue) : Reordered value (sortKeys value) :=
  reordered_arrange KeySort.sortByKey_perm value

theorem memberParts_stable (indent : ℚ) (depth : Nat)
    (members : List (List UInt8 × Option Written)) :
    memberParts { indent := indent, stable := true } depth members =
      memberParts { indent := indent, stable := false } depth members := by
  induction members with
  | nil => rfl
  | cons member rest ih =>
      obtain ⟨key, _ | written⟩ := member
      · exact ih
      · rw [memberParts, memberParts, ih]
        rfl

mutual

theorem write_stable (numbers : NumberText) (indent : ℚ) :
    ∀ (value : JsonValue) (depth : Nat), Plain numbers value →
      write numbers { indent := indent, stable := true } depth value =
        write numbers { indent := indent, stable := false } depth (sortKeys value)
  | .array elements, depth, plain => by
      have same := writeElements_stable numbers indent elements depth plain
      rw [sortKeys, arrange, write, write, same]
      rfl
  | .object members, depth, plain => by
      have same := writeMembers_stable numbers indent members depth plain.2
      have sorted := @KeySort.sortByKey_map _ _ _ comesAfter
        (memberWritten numbers { indent := indent, stable := false } depth)
        (arrangeMembers (KeySort.sortByKey comesAfter) members)
      rw [← writeMembers_eq, ← writeMembers_eq] at sorted
      rw [sortKeys, arrange, write, write]
      simp only [if_true, Bool.false_eq_true, if_false]
      rw [same, sorted, memberParts_stable]
      rfl
  | .null, _, _ | .boolean _, _, _ | .number _, _, _ | .string _, _, _ => rfl

theorem writeElements_stable (numbers : NumberText) (indent : ℚ) :
    ∀ (elements : List JsonValue) (depth : Nat), PlainElements numbers elements →
      writeElements numbers { indent := indent, stable := true } depth elements =
        writeElements numbers { indent := indent, stable := false } depth
          (arrangeElements (KeySort.sortByKey comesAfter) elements)
  | [], _, _ => rfl
  | element :: rest, depth, plain => by
      have first := write_stable numbers indent element (depth + 1) plain.1
      have others := writeElements_stable numbers indent rest depth plain.2
      rw [arrangeElements, writeElements, writeElements, first, others]
      rfl

theorem writeMembers_stable (numbers : NumberText) (indent : ℚ) :
    ∀ (members : List (List UInt8 × JsonValue)) (depth : Nat), PlainMembers numbers members →
      writeMembers numbers { indent := indent, stable := true } depth members =
        writeMembers numbers { indent := indent, stable := false } depth
          (arrangeMembers (KeySort.sortByKey comesAfter) members)
  | [], _, _ => rfl
  | (key, held) :: rest, depth, plain => by
      have first := write_stable numbers indent held (depth + 1) plain.1
      have others := writeMembers_stable numbers indent rest depth plain.2
      have arranged := (reordered_sortKeys held).plain plain.1
      rw [arrangeMembers, writeMembers_cons plain.1, writeMembers_cons arranged, first, others]

end

theorem stringify_plain {numbers : NumberText} {value : JsonValue} (plain : Plain numbers value)
    (indent : ℚ) (stable : Bool) :
    stringify numbers value indent stable =
      .ok (textOf numbers { indent := indent, stable := false } 0
        (if stable then sortKeys value else value)) := by
  unfold stringify
  cases stable with
  | false => exact write_plain rfl value 0 plain
  | true =>
      rw [write_stable numbers indent value 0 plain]
      exact write_plain rfl (sortKeys value) 0 ((reordered_sortKeys value).plain plain)

/-! ### Keys that do not tie -/

theorem arrangeMembers_keys {order : List (List UInt8 × JsonValue) → List (List UInt8 × JsonValue)}
    (members : List (List UInt8 × JsonValue)) :
    (arrangeMembers order members).map Prod.fst = members.map Prod.fst := by
  rw [arrangeMembers_eq, List.map_map]
  rfl

theorem sortByKey_inOrder {members : List (List UInt8 × JsonValue)}
    (noTies : ((members.map Prod.fst).map upToZero).Nodup) :
    ((KeySort.sortByKey comesAfter members).map Prod.fst).Pairwise
      (fun left right => left < right) := by
  have sorted := KeySort.sortByKey_sorted comesAfter_orders members
  have apart : ((KeySort.sortByKey comesAfter members).map
      (fun member => upToZero member.1)).Nodup := by
    rw [List.map_map] at noTies
    exact ((KeySort.sortByKey_perm members).map _).nodup_iff.mpr noTies
  rw [List.Nodup, List.pairwise_map] at apart
  rw [List.pairwise_map]
  refine (sorted.and apart).imp ?_
  intro a b ⟨first, differ⟩
  apply lt_of_upToZero
  rw [← comesAfter_iff]
  by_contra second
  exact differ ((ties_iff a.1 b.1).mp ⟨first, by simpa using second⟩)

mutual

theorem keysSorted_sortKeys : ∀ value, NoTies value → KeysSorted (sortKeys value)
  | .array elements, noTies => throughoutElements_iff.mpr (keysSorted_elements elements noTies)
  | .object members, noTies => by
      constructor
      · apply sortByKey_inOrder
        rw [arrangeMembers_keys]
        exact noTies.1
      · apply throughoutMembers_iff.mpr
        intro member sorted
        exact keysSorted_members members noTies.2 member (KeySort.mem_sortByKey.mp sorted)
  | .null, _ | .undefined, _ | .boolean _, _ | .number _, _ | .string _, _ | .bigint, _
  | .set _, _ | .date _, _ | .other _, _ => trivial

theorem keysSorted_elements :
    ∀ elements, ThroughoutElements (fun _ => True) (fun keys => (keys.map upToZero).Nodup)
        elements →
      ∀ element ∈ arrangeElements (KeySort.sortByKey comesAfter) elements, KeysSorted element
  | [], _ => nofun
  | element :: rest, noTies => by
      rw [arrangeElements, List.forall_mem_cons]
      exact ⟨keysSorted_sortKeys element noTies.1, keysSorted_elements rest noTies.2⟩

theorem keysSorted_members :
    ∀ members, ThroughoutMembers (fun _ => True) (fun keys => (keys.map upToZero).Nodup)
        members →
      ∀ member ∈ arrangeMembers (KeySort.sortByKey comesAfter) members, KeysSorted member.2
  | [], _ => nofun
  | (key, held) :: rest, noTies => by
      rw [arrangeMembers, List.forall_mem_cons]
      exact ⟨keysSorted_sortKeys held noTies.1, keysSorted_members rest noTies.2⟩

end

/-! ### Keys that tie -/

abbrev turned (value : JsonValue) : JsonValue :=
  arrange List.reverse value

theorem reordered_turned (value : JsonValue) : Reordered value (turned value) :=
  reordered_arrange List.reverse_perm value

theorem eq_of_reverse {α : Type} {items : List α} (distinct : items.Nodup)
    (palindrome : items.reverse = items) : ∀ a ∈ items, ∀ b ∈ items, a = b := by
  cases items with
  | nil => nofun
  | cons first rest =>
      cases rest with
      | nil => simp
      | cons second rest =>
          have last : (first :: second :: rest).reverse.head (by simp) =
              (second :: rest).getLast (by simp) := by
            rw [List.head_reverse, List.getLast_cons]
          have same : first = (second :: rest).getLast (by simp) := by
            rw [← last]
            simp only [palindrome, List.head_cons]
          have member := List.getLast_mem (show second :: rest ≠ [] by simp)
          rw [← same] at member
          exact absurd member (List.nodup_cons.mp distinct).1

theorem cuts_of_sortByKey {members others : List (List UInt8 × JsonValue)}
    (distinct : (members.map Prod.fst).Nodup)
    (keys : others.map Prod.fst = members.map Prod.fst)
    (same : KeySort.sortByKey comesAfter members =
      KeySort.sortByKey comesAfter others.reverse) :
    ((members.map Prod.fst).map upToZero).Nodup := by
  rw [List.nodup_map_iff_inj_on distinct]
  intro a aMember b bMember cut
  -- The keys that tie with `a` come out as they went in, both ways round.
  have filtered : (members.map Prod.fst).filter (fun key => upToZero key = upToZero a) =
      ((members.map Prod.fst).filter (fun key => upToZero key = upToZero a)).reverse := by
    have ties : ∀ {x y : List UInt8}, decide (upToZero x = upToZero a) = true →
        decide (upToZero y = upToZero a) = true → comesAfter x y = false := by
      intro x y left right
      have equal := (of_decide_eq_true left).trans (of_decide_eq_true right).symm
      exact ((ties_iff x y).mpr equal).1
    have kept := @KeySort.sortByKey_stable _ _ comesAfter members
      (fun key => upToZero key = upToZero a) (fun _ _ _ _ => ties)
    rw [same, @KeySort.sortByKey_stable _ _ comesAfter others.reverse
      (fun key => upToZero key = upToZero a) (fun _ _ _ _ => ties), List.filter_reverse] at kept
    have named := congrArg (List.map Prod.fst) kept
    rw [List.map_reverse] at named
    have split (items : List (List UInt8 × JsonValue)) :
        (items.filter (fun item => decide (upToZero item.1 = upToZero a))).map Prod.fst =
          (items.map Prod.fst).filter (fun key => upToZero key = upToZero a) := by
      rw [List.filter_map]
      rfl
    rw [split, split, keys] at named
    exact named.symm
  have palindrome := filtered.symm
  have both := eq_of_reverse (distinct.filter _) palindrome
  exact both a (List.mem_filter.mpr ⟨aMember, by simp⟩) b
    (List.mem_filter.mpr ⟨bMember, by simp [cut]⟩)

theorem turned_members {members : List (List UInt8 × JsonValue)}
    (distinct : (members.map Prod.fst).Nodup)
    (same : KeySort.sortByKey comesAfter
        (arrangeMembers (KeySort.sortByKey comesAfter) members) =
      KeySort.sortByKey comesAfter (arrangeMembers (KeySort.sortByKey comesAfter)
        (arrangeMembers List.reverse members).reverse)) :
    ((members.map Prod.fst).map upToZero).Nodup ∧
      ∀ member ∈ members, sortKeys member.2 = sortKeys (turned member.2) := by
  rw [arrangeMembers_eq (_ : List _).reverse, List.map_reverse, ← arrangeMembers_eq] at same
  constructor
  · have cuts := cuts_of_sortByKey (by rw [arrangeMembers_keys]; exact distinct)
      (by rw [arrangeMembers_keys, arrangeMembers_keys, arrangeMembers_keys]) same
    rwa [arrangeMembers_keys] at cuts
  · intro member present
    have forward : (member.1, sortKeys member.2) ∈
        arrangeMembers (KeySort.sortByKey comesAfter) members := by
      rw [arrangeMembers_eq]
      exact List.mem_map.mpr ⟨member, present, rfl⟩
    rw [← @KeySort.mem_sortByKey _ _ comesAfter, same, KeySort.mem_sortByKey,
      List.mem_reverse, arrangeMembers_eq, arrangeMembers_eq, List.map_map] at forward
    obtain ⟨origin, originPresent, equal⟩ := List.mem_map.mp forward
    obtain ⟨name, held⟩ := Prod.mk.inj equal
    obtain rfl := List.inj_on_of_nodup_map distinct originPresent present name
    exact held.symm

mutual

theorem noTies_of_turned {numbers : NumberText} :
    ∀ value, Plain numbers value → sortKeys value = sortKeys (turned value) → NoTies value
  | .array elements, plain, same => by
      simp only [sortKeys, turned, arrange, JsonValue.array.injEq, arrangeElements_eq,
        List.map_map] at same
      exact noTies_elements elements plain same
  | .object members, plain, same => by
      obtain ⟨cuts, held⟩ := turned_members plain.1 (JsonValue.object.inj same)
      exact ⟨cuts, noTies_members members plain.2 held⟩
  | .null, _, _ | .boolean _, _, _ | .number _, _, _ | .string _, _, _ => trivial

theorem noTies_elements {numbers : NumberText} :
    ∀ elements, PlainElements numbers elements →
      elements.map sortKeys = elements.map (fun element => sortKeys (turned element)) →
        ThroughoutElements (fun _ => True) (fun keys => (keys.map upToZero).Nodup) elements
  | [], _, _ => trivial
  | element :: rest, plain, same => by
      rw [List.map_cons, List.map_cons, List.cons.injEq] at same
      exact ⟨noTies_of_turned element plain.1 same.1, noTies_elements rest plain.2 same.2⟩

theorem noTies_members {numbers : NumberText} :
    ∀ members, PlainMembers numbers members →
      (∀ member ∈ members, sortKeys member.2 = sortKeys (turned member.2)) →
        ThroughoutMembers (fun _ => True) (fun keys => (keys.map upToZero).Nodup) members
  | [], _, _ => trivial
  | (key, held) :: rest, plain, same => by
      rw [List.forall_mem_cons] at same
      exact ⟨noTies_of_turned held plain.1 same.1, noTies_members rest plain.2 same.2⟩

end

/-! ### Written and read -/

/-- Read as it was, with its keys in order in a stable text, which is the same for
every order of insertion. -/
structure RoundTrips (numbers : NumberText) (value : JsonValue) : Prop where
  asGiven : ∀ indent, ∃ text, stringify numbers value indent false = .ok text ∧
    parse numbers text = .ok value
  sorted : ∀ indent, ∃ text back, stringify numbers value indent true = .ok text ∧
    parse numbers text = .ok back ∧ Reordered value back ∧ KeysSorted back
  orderless : ∀ other, Reordered value other → ∀ indent,
    stringifyStable numbers value indent = stringifyStable numbers other indent

section

variable {numbers : NumberText} {value : JsonValue}

theorem RoundTrips.clean (plain : Plain numbers value) (whole : RoundTrips numbers value) :
    Clean value := by
  obtain ⟨text, written, read⟩ := whole.asGiven 0
  rw [stringify_plain plain] at written
  cases written
  rw [if_neg nofun, parse_textOf plain] at read
  rw [← Except.ok.inj read]
  exact clean_readBack value

theorem RoundTrips.noTies (plain : Plain numbers value) (whole : RoundTrips numbers value) :
    NoTies value := by
  have clean := whole.clean plain
  have moved := reordered_turned value
  have sortedFirst := reordered_sortKeys value
  have sortedSecond := moved.trans (reordered_sortKeys (turned value))
  have written : stringify numbers value 0 true = stringify numbers (turned value) 0 true :=
    whole.orderless _ moved 0
  rw [stringify_plain plain, stringify_plain (moved.plain plain)] at written
  have read := congrArg (parse numbers) (Except.ok.inj written)
  simp only [if_true] at read
  rw [parse_textOf (sortedFirst.plain plain), parse_textOf (sortedSecond.plain plain),
    readBack_clean _ (sortedFirst.plain plain) (sortedFirst.clean clean),
    readBack_clean _ (sortedSecond.plain plain) (sortedSecond.clean clean)] at read
  exact noTies_of_turned value plain (Except.ok.inj read)

end

end CScript.StdJson
