/-
Which keys a Map finds again.

Two BigInts that hold the same number are the same key, but the hash of a
BigInt is its address.  A run looks only at the BigInt cells among its keys, so
one over keys whose hashes agree is a run over a heap in which all hashes agree.
-/

import CScript.Native.MapRefinement
import Mathlib.Algebra.Order.BigOperators.Group.List

namespace CScript

open Foundation

/-! ### The cells a run looks at -/

def CellsAgree (bigints other : BigIntCells) (key : Value) : Prop :=
  ∀ address, key = .obj (.cell .bigint address) → bigints address = other address

def EntriesAgree (bigints other : BigIntCells) (entries : List MapEntry) : Prop :=
  ∀ entry ∈ entries, CellsAgree bigints other entry.key

section

variable {bigints other : BigIntCells}

private theorem keyClass_congr {key : Value} (agree : CellsAgree bigints other key) :
    keyClass bigints key = keyClass other key := by
  cases key with
  | obj object =>
      cases object with
      | cell kind address =>
          cases kind with
          | bigint => exact congrArg KeyClass.bigint (agree address rfl)
          | _ => rfl
      | _ => rfl
  | _ => rfl

theorem sameValueZero_congr {left right : Value} (agreeLeft : CellsAgree bigints other left)
    (agreeRight : CellsAgree bigints other right) :
    csValuesSameValueZero bigints left right = csValuesSameValueZero other left right := by
  rw [Bool.eq_iff_iff, sameValueZero_iff, sameValueZero_iff, keyClass_congr agreeLeft,
    keyClass_congr agreeRight]

theorem compactEntries_agree {entries : List MapEntry}
    (agree : EntriesAgree bigints other entries) :
    EntriesAgree bigints other (compactEntries entries) :=
  fun entry member => agree entry (List.mem_filter.mp member).1

/-! ### The operations -/

private theorem findSlotLoop_congr {map : ObjMap} {key : Value}
    (agree : EntriesAgree bigints other map.entries) (agreeKey : CellsAgree bigints other key) :
    ∀ fuel slot,
      findSlotLoop bigints map key fuel slot = findSlotLoop other map key fuel slot
  | 0, _ => rfl
  | fuel + 1, slot => by
      unfold findSlotLoop
      cases map.index[slot]? with
      | none => rfl
      | some held =>
          cases held with
          | none => rfl
          | some place =>
              cases here : map.entries[place]? with
              | none => simp only [here]
              | some entry =>
                  simp only [here, findSlotLoop_congr agree agreeKey fuel,
                    sameValueZero_congr (agree entry (List.mem_of_getElem? here)) agreeKey]

theorem findSlot_congr {map : ObjMap} {key : Value}
    (agree : EntriesAgree bigints other map.entries) (agreeKey : CellsAgree bigints other key) :
    findSlot bigints map key = findSlot other map key :=
  findSlotLoop_congr agree agreeKey _ _

private theorem indexEntries_congr : ∀ (steps i : Nat) (map : ObjMap),
    EntriesAgree bigints other map.entries →
      indexEntries bigints steps i map = indexEntries other steps i map
  | 0, _, _, _ => rfl
  | steps + 1, i, map, agree => by
      unfold indexEntries
      cases here : map.entries[i]? with
      | none => rfl
      | some entry =>
          simp only [Option.bind_eq_bind, Option.bind_some,
            findSlot_congr agree (agree entry (List.mem_of_getElem? here))]
          cases findSlot other map entry.key with
          | none => rfl
          | some slot =>
              simp only [Option.bind_some]
              exact indexEntries_congr steps (i + 1) _ agree

theorem rehash_congr {map : ObjMap} (agree : EntriesAgree bigints other map.entries)
    (indexCapacity : Nat) :
    rehash bigints map indexCapacity = rehash other map indexCapacity :=
  indexEntries_congr _ _ _ (compactEntries_agree agree)

private theorem rehash_agree {map after : ObjMap} {indexCapacity : Nat}
    (agree : EntriesAgree bigints other map.entries)
    (ran : rehash other map indexCapacity = some after) :
    EntriesAgree bigints other after.entries := by
  rw [(rehash_fields ran).1]
  exact compactEntries_agree agree

private theorem openIndex_congr {map : ObjMap} (agree : EntriesAgree bigints other map.entries) :
    openIndex bigints map = openIndex other map := by
  unfold openIndex
  rw [rehash_congr agree]

private theorem openIndex_agree {map after : ObjMap}
    (agree : EntriesAgree bigints other map.entries) (ran : openIndex other map = some after) :
    EntriesAgree bigints other after.entries := by
  unfold openIndex at ran
  split at ran
  · exact rehash_agree agree ran
  · cases ran
    exact agree

theorem csMapGet_congr {map : ObjMap} {key : Value}
    (agree : EntriesAgree bigints other map.entries) (agreeKey : CellsAgree bigints other key) :
    csMapGet bigints map key = csMapGet other map key := by
  unfold csMapGet
  rw [findSlot_congr agree agreeKey]

theorem csMapSet_congr {map : ObjMap} {key : Value}
    (agree : EntriesAgree bigints other map.entries) (agreeKey : CellsAgree bigints other key)
    (value : Value) : csMapSet bigints map key value = csMapSet other map key value := by
  unfold csMapSet
  rw [openIndex_congr agree]
  cases opened : openIndex other map with
  | none => rfl
  | some map =>
      have agreeOpened := openIndex_agree agree opened
      simp only [Option.bind_eq_bind, Option.bind_some, findSlot_congr agreeOpened agreeKey,
        rehash_congr agreeOpened]
      cases rehashed : rehash other map (map.indexCapacity * 2) with
      | none => rfl
      | some grown =>
          simp only [Option.bind_some, findSlot_congr (rehash_agree agreeOpened rehashed) agreeKey]

theorem csMapDelete_congr {map : ObjMap} {key : Value}
    (agree : EntriesAgree bigints other map.entries) (agreeKey : CellsAgree bigints other key) :
    csMapDelete bigints map key = csMapDelete other map key := by
  have sameRehash (place : Nat) : rehash bigints
      { map with
        entries := map.entries.set place
          { key := .undefined, value := .undefined, present := false }
        liveCount := map.liveCount - 1 } map.indexCapacity =
      rehash other
      { map with
        entries := map.entries.set place
          { key := .undefined, value := .undefined, present := false }
        liveCount := map.liveCount - 1 } map.indexCapacity := by
    apply rehash_congr
    intro entry member address isCell
    rcases List.mem_or_eq_of_mem_set member with old | rfl
    · exact agree entry old address isCell
    · cases isCell
  unfold csMapDelete
  simp only [findSlot_congr agree agreeKey, sameRehash]

end

/-! ### Runs -/

def MapOp.key? : MapOp → Option Value
  | .set key _ => some key
  | .get key => some key
  | .has key => some key
  | .delete key => some key
  | .clear => none
  | .toArray => none
  | .collect _ => none

section

variable {bigints other : BigIntCells}

private theorem stepMap_congr {map : ObjMap} (agree : EntriesAgree bigints other map.entries)
    {op : MapOp} (agreeOp : ∀ key ∈ op.key?, CellsAgree bigints other key) :
    stepMap bigints map op = stepMap other map op := by
  cases op with
  | set key value => simp only [stepMap, csMapSet_congr agree (agreeOp key rfl)]
  | get key => simp only [stepMap, csMapGet_congr agree (agreeOp key rfl)]
  | has key => simp only [stepMap, csMapHas, csMapGet_congr agree (agreeOp key rfl)]
  | delete key => simp only [stepMap, csMapDelete_congr agree (agreeOp key rfl)]
  | clear => rfl
  | toArray => rfl
  | collect want => rfl

private theorem stepItems_agree (isSet : Bool) {items : List (Value × Value)}
    (agree : ∀ item ∈ items, CellsAgree bigints other item.1) {op : MapOp}
    (agreeOp : ∀ key ∈ op.key?, CellsAgree bigints other key) :
    ∀ item ∈ (stepItems other isSet items op).1, CellsAgree bigints other item.1 := by
  cases op with
  | set key value =>
      intro item member
      rcases OrderedMap.key_mem_put member with new | ⟨original, originalMember, keyEq⟩
      · rw [new]
        exact agreeOp key rfl
      · rw [← keyEq]
        exact agree original originalMember
  | delete key =>
      intro item member
      exact agree item ((OrderedMap.erase_sublist _ items key).subset member)
  | clear =>
      intro item member
      cases member
  | _ => exact agree

private theorem run_congr (respects : HashRespects other) (isSet : Bool) :
    ∀ (ops : List MapOp) (map : ObjMap) (items : List (Value × Value)),
      map.isSet = isSet → MapHolds other map items →
      (∀ item ∈ items, CellsAgree bigints other item.1) →
      (∀ op ∈ ops, ∀ key ∈ op.key?, CellsAgree bigints other key) →
      ∃ after answers, Refinement.run (stepMap bigints) map ops = some (after, answers) ∧
        MapHolds other after (Refinement.specify (stepItems other isSet) items ops).1 ∧
        EntriesAgree bigints other after.entries
  | [], map, items, _, holds, agree, _ => by
      refine ⟨map, [], rfl, holds, ?_⟩
      rw [holds.entries]
      intro entry member
      obtain ⟨item, itemMember, rfl⟩ := List.mem_map.mp member
      exact agree item itemMember
  | op :: ops, map, items, kind, holds, agree, agreeOps => by
      have agreeOp := agreeOps op List.mem_cons_self
      have agreeEntries : EntriesAgree bigints other map.entries := by
        rw [holds.entries]
        intro entry member
        obtain ⟨item, itemMember, rfl⟩ := List.mem_map.mp member
        exact agree item itemMember
      obtain ⟨next, stepped, nextKind, nextHolds⟩ :=
        stepMap_refines respects isSet map items op ⟨kind, holds⟩
      obtain ⟨after, answers, ran, afterHolds, afterAgree⟩ := run_congr respects isSet ops next
        (stepItems other isSet items op).1 nextKind nextHolds (stepItems_agree isSet agree agreeOp)
        (fun later member => agreeOps later (List.mem_cons_of_mem _ member))
      refine ⟨after, (stepItems other isSet items op).2 :: answers, ?_, afterHolds, afterAgree⟩
      unfold Refinement.run
      rw [stepMap_congr agreeEntries agreeOp, stepped]
      simp only [Option.bind_eq_bind, Option.bind_some, ran, Option.pure_def]

end

/-! ### A heap in which all hashes agree -/

private def apartFrom (bigints : BigIntCells) (used : List Nat) : BigIntCells :=
  fun address =>
    if address ∈ used then bigints address
    else
      { limbs := List.replicate ((used.map (fun cell => (bigints cell).count)).sum + address + 1) 1
        negative := false }

private theorem apartFrom_unused {bigints : BigIntCells} {used : List Nat} {address : Nat}
    (unused : address ∉ used) :
    (apartFrom bigints used address).count =
      (used.map (fun cell => (bigints cell).count)).sum + address + 1 := by
  unfold apartFrom BigInt.count
  rw [if_neg unused, List.length_replicate]

private theorem apartFrom_used {bigints : BigIntCells} {used : List Nat} {address : Nat}
    (member : address ∈ used) : apartFrom bigints used address = bigints address :=
  if_pos member

private theorem count_le_sum (bigints : BigIntCells) {used : List Nat} {address : Nat}
    (member : address ∈ used) :
    (bigints address).count ≤ (used.map (fun cell => (bigints cell).count)).sum :=
  List.single_le_sum (fun _ _ => Nat.zero_le _) _
    (List.mem_map_of_mem (f := fun cell => (bigints cell).count) member)

private theorem apartFrom_respects {bigints : BigIntCells} {used : List Nat}
    (coherent : ∀ x ∈ used, ∀ y ∈ used, bigints x = bigints y →
      foldBits (UInt64.ofNat x) = foldBits (UInt64.ofNat y)) :
    HashRespects (apartFrom bigints used) := by
  rw [hashRespects_iff]
  intro x y same
  have counts := congrArg BigInt.count same
  by_cases xUsed : x ∈ used <;> by_cases yUsed : y ∈ used
  · rw [apartFrom_used xUsed, apartFrom_used yUsed] at same
    exact coherent x xUsed y yUsed same
  · rw [apartFrom_used xUsed, apartFrom_unused yUsed] at counts
    have bound := count_le_sum bigints xUsed
    omega
  · rw [apartFrom_unused xUsed, apartFrom_used yUsed] at counts
    have bound := count_le_sum bigints yUsed
    omega
  · rw [apartFrom_unused xUsed, apartFrom_unused yUsed] at counts
    have equal : x = y := by omega
    rw [equal]

/-! ### Keys that are found again -/

def MapOp.Keeps (bigints : BigIntCells) (kept : Value) : MapOp → Prop
  | .set key _ => csValuesSameValueZero bigints key kept = false
  | .delete key => csValuesSameValueZero bigints key kept = false
  | .clear => False
  | _ => True

/-- Equal keys hash alike, and a stored key is found again by every equal key,
whatever else is done to the collection with keys in use. -/
structure KeysFound (bigints : BigIntCells) (used : Value → Prop) : Prop where
  hash : ∀ a b, used a → used b → csValuesSameValueZero bigints a b = true →
    hashValue a = hashValue b
  found : ∀ (isSet : Bool) (before later : List MapOp) (a b value : Value), used a → used b →
    csValuesSameValueZero bigints a b = true →
    (∀ op ∈ before ++ later, ∀ key ∈ op.key?, used key) → (∀ op ∈ later, op.Keeps bigints a) →
    ∃ map answers, Refinement.run (stepMap bigints) (csMapNew isSet)
        (before ++ .set a value :: later) = some (map, answers) ∧
      csMapGet bigints map b = some (some value)

private theorem specify_append {State Op Answer : Type} (spec : State → Op → State × Answer) :
    ∀ (first second : List Op) (state : State),
      (Refinement.specify spec state (first ++ second)).1 =
        (Refinement.specify spec (Refinement.specify spec state first).1 second).1
  | [], _, _ => rfl
  | op :: first, second, state => specify_append spec first second (spec state op).1

private theorem stepItems_keeps {bigints : BigIntCells} (isSet : Bool)
    {items : List (Value × Value)} {op : MapOp} {kept : Value}
    (distinct : OrderedMap.Distinct (csValuesSameValueZero bigints) items)
    (keeps : op.Keeps bigints kept) :
    OrderedMap.Distinct (csValuesSameValueZero bigints) (stepItems bigints isSet items op).1 ∧
      OrderedMap.lookup (csValuesSameValueZero bigints) (stepItems bigints isSet items op).1 kept =
        OrderedMap.lookup (csValuesSameValueZero bigints) items kept := by
  have equiv := sameValueZero_equivalence bigints
  cases op with
  | set key value =>
      refine ⟨distinct.put key value, ?_⟩
      have apart : csValuesSameValueZero bigints key kept = false := keeps
      simp only [stepItems, OrderedMap.lookup_put equiv, apart, Bool.false_eq_true, if_false]
  | delete key =>
      refine ⟨distinct.erase key, ?_⟩
      have apart : csValuesSameValueZero bigints key kept = false := keeps
      simp only [stepItems, OrderedMap.lookup_erase equiv distinct, apart, Bool.false_eq_true,
        if_false]
  | clear => exact absurd keeps id
  | _ => exact ⟨distinct, rfl⟩

private theorem specify_keeps {bigints : BigIntCells} (isSet : Bool) {kept : Value} :
    ∀ (ops : List MapOp) (items : List (Value × Value)),
      OrderedMap.Distinct (csValuesSameValueZero bigints) items →
      (∀ op ∈ ops, op.Keeps bigints kept) →
      OrderedMap.lookup (csValuesSameValueZero bigints)
          (Refinement.specify (stepItems bigints isSet) items ops).1 kept =
        OrderedMap.lookup (csValuesSameValueZero bigints) items kept
  | [], _, _, _ => rfl
  | op :: ops, items, distinct, keeps => by
      obtain ⟨nextDistinct, kept⟩ := stepItems_keeps isSet distinct (keeps op List.mem_cons_self)
      exact (specify_keeps isSet ops _ nextDistinct
        (fun later member => keeps later (List.mem_cons_of_mem _ member))).trans kept

private theorem lookup_same {bigints : BigIntCells} (items : List (Value × Value)) {a b : Value}
    (same : csValuesSameValueZero bigints a b = true) :
    OrderedMap.lookup (csValuesSameValueZero bigints) items b =
      OrderedMap.lookup (csValuesSameValueZero bigints) items a := by
  have equiv := sameValueZero_equivalence bigints
  induction items with
  | nil => rfl
  | cons item rest ih =>
      obtain ⟨held, value⟩ := item
      unfold OrderedMap.lookup
      rw [ih, OrderedMap.same_comm equiv held b, OrderedMap.same_comm equiv held a,
        OrderedMap.same_congr equiv same held]

def Value.bigintAddress : Value → Option Nat
  | .obj object => object.asBigInt
  | _ => none

private theorem agree_apartFrom (bigints : BigIntCells) {keys : List Value} {key : Value}
    (member : key ∈ keys) :
    CellsAgree bigints (apartFrom bigints (keys.filterMap Value.bigintAddress)) key := by
  intro address isCell
  subst isCell
  exact (apartFrom_used (List.mem_filterMap.mpr ⟨_, member, rfl⟩)).symm

private theorem cells_coherent {bigints : BigIntCells} {used : Value → Prop} {keys : List Value}
    (usedKeys : ∀ key ∈ keys, used key)
    (cells : ∀ x y, used (.obj (.cell .bigint x)) → used (.obj (.cell .bigint y)) →
      bigints x = bigints y → foldBits (UInt64.ofNat x) = foldBits (UInt64.ofNat y)) :
    HashRespects (apartFrom bigints (keys.filterMap Value.bigintAddress)) := by
  have isUsed : ∀ x ∈ keys.filterMap Value.bigintAddress, used (.obj (.cell .bigint x)) := by
    intro x member
    obtain ⟨key, keyMember, address⟩ := List.mem_filterMap.mp member
    have isCell : key = .obj (.cell .bigint x) := by
      unfold Value.bigintAddress at address
      split at address
      · rw [asBigInt_eq_some address]
      · cases address
    exact isCell ▸ usedKeys key keyMember
  exact apartFrom_respects (fun x xMember y yMember same =>
    cells x y (isUsed x xMember) (isUsed y yMember) same)

/-- The keys of a run are coherent exactly if no two BigInts among them hold
the same number at addresses whose hashes differ. -/
theorem keysFound_iff (bigints : BigIntCells) (used : Value → Prop) :
    Equivalence (fun a b => csValuesSameValueZero bigints a b = true) ∧
      (KeysFound bigints used ↔
        ∀ x y, used (.obj (.cell .bigint x)) → used (.obj (.cell .bigint y)) →
          bigints x = bigints y → foldBits (UInt64.ofNat x) = foldBits (UInt64.ofNat y)) := by
  refine ⟨sameValueZero_equivalence bigints, fun keys x y xUsed yUsed same =>
    keys.hash _ _ xUsed yUsed ((sameValueZero_iff bigints _ _).mpr
      (congrArg KeyClass.bigint same)), fun cells => ⟨?hash, ?found⟩⟩
  case hash =>
    intro a b aUsed bUsed same
    have inA : a ∈ [a, b] := List.mem_cons_self
    have inB : b ∈ [a, b] := List.mem_cons_of_mem a List.mem_cons_self
    have usedKeys : ∀ key ∈ [a, b], used key := by
      intro key member
      rcases List.mem_pair.mp member with rfl | rfl
      · exact aUsed
      · exact bUsed
    rw [sameValueZero_congr (agree_apartFrom bigints inA) (agree_apartFrom bigints inB)] at same
    exact cells_coherent usedKeys cells a b same
  case found =>
    intro isSet before later a b value aUsed bUsed same usedOps keeps
    -- The run is over finitely many keys, so another heap can stand for this one.
    let keys := a :: b :: (before ++ later).filterMap MapOp.key?
    let other := apartFrom bigints (keys.filterMap Value.bigintAddress)
    have usedKeys : ∀ key ∈ keys, used key := by
      intro key member
      rcases List.mem_cons.mp member with rfl | member
      · exact aUsed
      · rcases List.mem_cons.mp member with rfl | member
        · exact bUsed
        · obtain ⟨op, opMember, isKey⟩ := List.mem_filterMap.mp member
          exact usedOps op opMember key isKey
    have respects : HashRespects other := cells_coherent usedKeys cells
    have agreeA : CellsAgree bigints other a := agree_apartFrom bigints List.mem_cons_self
    have agreeB : CellsAgree bigints other b :=
      agree_apartFrom bigints (List.mem_cons_of_mem a List.mem_cons_self)
    have agreeOps : ∀ op ∈ before ++ later, ∀ key ∈ op.key?, CellsAgree bigints other key :=
      fun op member key isKey => agree_apartFrom bigints (List.mem_cons_of_mem a (List.mem_cons_of_mem b
        (List.mem_filterMap.mpr ⟨op, member, isKey⟩)))
    have agreeBefore : ∀ op ∈ before, ∀ key ∈ op.key?, CellsAgree bigints other key :=
      fun op member => agreeOps op (List.mem_append_left later member)
    have agreeRun : ∀ op ∈ before ++ .set a value :: later, ∀ key ∈ op.key?,
        CellsAgree bigints other key := by
      intro op member
      rcases List.mem_append.mp member with first | member
      · exact agreeBefore op first
      · rcases List.mem_cons.mp member with rfl | last
        · intro key isKey
          cases isKey
          exact agreeA
        · exact agreeOps op (List.mem_append_right before last)
    have keepsOther : ∀ op ∈ later, op.Keeps other a := by
      intro op member
      have kept := keeps op member
      have agreeOp := agreeOps op (List.mem_append_right before member)
      cases op with
      | set key stored => exact (sameValueZero_congr (agreeOp key rfl) agreeA).symm.trans kept
      | delete key => exact (sameValueZero_congr (agreeOp key rfl) agreeA).symm.trans kept
      | clear => exact kept
      | _ => trivial
    have noItems : ∀ item ∈ ([] : List (Value × Value)), CellsAgree bigints other item.1 :=
      fun item member => absurd member List.not_mem_nil
    obtain ⟨_, _, _, beforeHolds, _⟩ := run_congr respects isSet before (csMapNew isSet) [] rfl
      (csMapNew_holds other isSet) noItems agreeBefore
    obtain ⟨map, answers, ran, holds, agreeEntries⟩ := run_congr respects isSet
      (before ++ .set a value :: later) (csMapNew isSet) [] rfl (csMapNew_holds other isSet)
      noItems agreeRun
    refine ⟨map, answers, ran, ?_⟩
    rw [sameValueZero_congr agreeA agreeB] at same
    rw [csMapGet_congr agreeEntries agreeB, csMapGet_eq respects holds, lookup_same _ same,
      specify_append]
    have equiv := sameValueZero_equivalence other
    have stored := OrderedMap.lookup_put equiv
      (Refinement.specify (stepItems other isSet) [] before).1 a a value
    rw [if_pos (equiv.refl a)] at stored
    exact congrArg some ((specify_keeps isSet later _ (beforeHolds.distinct.put a value)
      keepsOther).trans stored)

private def twoOnes : BigIntCells :=
  fun _ => { limbs := [1], negative := false }

private def twelveKeys : List MapOp :=
  (List.range 12).map (fun place => .set (.obj (.cell .array (16 * (place + 1)))) .null)

/-- The BigInt stored goes to slot 0 or behind it, the equal one is looked for
from slot 16 on. -/
theorem equal_bigint_lost :
    (¬∀ (bigints : BigIntCells) (a b : Value), csValuesSameValueZero bigints a b = true →
        hashValue a = hashValue b) ∧
      ∃ map answers, Refinement.run (stepMap twoOnes) (csMapNew false)
          (twelveKeys ++ [.set (.obj (.cell .bigint 4096)) (.bool true)]) = some (map, answers) ∧
        csMapGet twoOnes map (.obj (.cell .bigint 4112)) = some none := by
  constructor
  · intro claim
    have wrong := claim twoOnes (.obj (.cell .bigint 4096)) (.obj (.cell .bigint 4112)) (by decide)
    revert wrong
    decide
  · have lost : ((Refinement.run (stepMap twoOnes) (csMapNew false)
        (twelveKeys ++ [.set (.obj (.cell .bigint 4096)) (.bool true)])).bind (fun done =>
          csMapGet twoOnes done.1 (.obj (.cell .bigint 4112)))) = some none := by
      decide +kernel
    obtain ⟨⟨map, answers⟩, ran, missed⟩ := Option.bind_eq_some_iff.mp lost
    exact ⟨map, answers, ran, missed⟩

end CScript
