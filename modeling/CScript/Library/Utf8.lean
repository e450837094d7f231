/-
Characters and their bytes, in std:encoding.

The decoder takes a lead byte and the continuation bytes it asks for, and never asks
which character they stand for: a form longer than it needs to be, a surrogate and a
code above U+10FFFF are decoded like any other.  The encoder refuses the last of them,
with an error that is thrown.
-/

import CScript.Library.Encoding

namespace CScript.Encoding

open Foundation.Formatted (decimalDigits)

/-! ### The source -/

def encodeUtf8 (code : Nat) : Except Text Text :=
  if 1114111 < code then .error (ascii "not a code point: " ++ decimalDigits code)
  else if code < 128 then .ok [UInt8.ofNat code]
  else if code < 2048 then
    .ok [UInt8.ofNat (192 + code / 64), UInt8.ofNat (128 + code % 64)]
  else if code < 65536 then
    .ok [UInt8.ofNat (224 + code / 4096), UInt8.ofNat (128 + code / 64 % 64),
      UInt8.ofNat (128 + code % 64)]
  else
    .ok [UInt8.ofNat (240 + code / 262144), UInt8.ofNat (128 + code / 4096 % 64),
      UInt8.ofNat (128 + code / 64 % 64), UInt8.ofNat (128 + code % 64)]

def lead (first : UInt8) : Option (Nat × Nat) :=
  if 192 ≤ first ∧ first < 224 then some (2, first.toNat - 192)
  else if 224 ≤ first ∧ first < 240 then some (3, first.toNat - 224)
  else if 240 ≤ first ∧ first < 248 then some (4, first.toNat - 240)
  else none

/-- The loop over the other bytes of the sequence at `i`. -/
def continueCode (i step code : Nat) : Text → Result Nat
  | [] => .ok code
  | next :: rest =>
      if next < 128 ∨ 192 ≤ next then
        .error (ascii "byte " ++ decimalDigits next.toNat ++ ascii " at " ++
          decimalDigits (i + step) ++ ascii " is not a continuation")
      else continueCode i (step + 1) (code * 64 + (next.toNat - 128)) rest

/-- The loop of `decodeUtf8` from the byte at `i` on. -/
def decodeUtf8Loop (i : Nat) : Text → Result (List Nat)
  | [] => .ok []
  | first :: rest =>
      if first < 128 then (decodeUtf8Loop (i + 1) rest).map (first.toNat :: ·)
      else
        match lead first with
        | none =>
            .error (ascii "byte " ++ decimalDigits first.toNat ++ ascii " at " ++
              decimalDigits i ++ ascii " cannot start a UTF-8 sequence")
        | some (width, code) =>
            if rest.length + 1 < width then
              .error (ascii "a " ++ decimalDigits width ++ ascii "-byte sequence at " ++
                decimalDigits i ++ ascii " runs past the end")
            else
              match continueCode i 1 code (rest.take (width - 1)) with
              | .error message => .error message
              | .ok code =>
                  (decodeUtf8Loop (i + width) (rest.drop (width - 1))).map (code :: ·)
termination_by text => text.length
decreasing_by
  · exact Nat.lt_succ_self _
  · rw [List.length_drop, List.length_cons]
    omega

def decodeUtf8 (text : Text) : Result (List Nat) :=
  decodeUtf8Loop 0 text

/-- What is thrown is outside of the `Result`. -/
def characters (text : Text) : Except Text (Result (List Text)) :=
  match decodeUtf8 text with
  | .error message => .ok (.error message)
  | .ok codes => (codes.mapM encodeUtf8).map .ok

def isValidUtf8 (text : Text) : Bool :=
  (decodeUtf8 text).isOk

/-! ### Sequences of bytes -/

def IsContinuation (c : UInt8) : Prop :=
  128 ≤ c.toNat ∧ c.toNat < 192

inductive Spells : Text → Nat → Prop
  | one {a : UInt8} : a.toNat < 128 → Spells [a] a.toNat
  | two {a b : UInt8} : 192 ≤ a.toNat → a.toNat < 224 → IsContinuation b →
      Spells [a, b] ((a.toNat - 192) * 64 + (b.toNat - 128))
  | three {a b c : UInt8} : 224 ≤ a.toNat → a.toNat < 240 → IsContinuation b →
      IsContinuation c →
      Spells [a, b, c] (((a.toNat - 224) * 64 + (b.toNat - 128)) * 64 + (c.toNat - 128))
  | four {a b c d : UInt8} : 240 ≤ a.toNat → a.toNat < 248 → IsContinuation b →
      IsContinuation c → IsContinuation d →
      Spells [a, b, c, d] ((((a.toNat - 240) * 64 + (b.toNat - 128)) * 64 +
        (c.toNat - 128)) * 64 + (d.toNat - 128))

def leastCode (bytes : Nat) : Nat :=
  if bytes ≤ 1 then 0 else if bytes = 2 then 128 else if bytes = 3 then 2048 else 65536

def Genuine (bytes : Text) (code : Nat) : Prop :=
  code.isValidChar ∧ leastCode bytes.length ≤ code

def WellFormed (text : Text) : Prop :=
  ∃ chars : List Char, text = chars.flatMap String.utf8EncodeChar

theorem utf8EncodeChar_eq (char : Char) : String.utf8EncodeChar char =
    if char.toNat ≤ 127 then [UInt8.ofNat char.toNat]
    else if char.toNat ≤ 2047 then
      [UInt8.ofNat (char.toNat / 64 % 32 + 192), UInt8.ofNat (char.toNat % 64 + 128)]
    else if char.toNat ≤ 65535 then
      [UInt8.ofNat (char.toNat / 4096 % 16 + 224), UInt8.ofNat (char.toNat / 64 % 64 + 128),
        UInt8.ofNat (char.toNat % 64 + 128)]
    else
      [UInt8.ofNat (char.toNat / 262144 % 8 + 240), UInt8.ofNat (char.toNat / 4096 % 64 + 128),
        UInt8.ofNat (char.toNat / 64 % 64 + 128), UInt8.ofNat (char.toNat % 64 + 128)] :=
  rfl

theorem char_le (char : Char) : char.toNat ≤ 1114111 := by
  have valid : char.toNat.isValidChar := char.valid
  unfold Nat.isValidChar at valid
  omega

theorem toNat_ofNat {n : Nat} (small : n < 256) : (UInt8.ofNat n).toNat = n :=
  UInt8.toNat_ofNat_of_lt' small

theorem isContinuation_ofNat (n : Nat) : IsContinuation (UInt8.ofNat (n % 64 + 128)) := by
  unfold IsContinuation
  rw [toNat_ofNat (by omega)]
  omega

theorem utf8EncodeChar_spells (char : Char) : Spells (String.utf8EncodeChar char) char.toNat := by
  have most := char_le char
  rw [utf8EncodeChar_eq]
  generalize char.toNat = code at most
  have sextet (n : Nat) : (UInt8.ofNat (n % 64 + 128)).toNat = n % 64 + 128 :=
    toNat_ofNat (by omega)
  split
  · have same : (UInt8.ofNat code).toNat = code := toNat_ofNat (by omega)
    have spells := Spells.one (a := UInt8.ofNat code) (by omega)
    rw [same] at spells
    exact spells
  · split
    · have same := toNat_ofNat (n := code / 64 % 32 + 192) (by omega)
      have spells := Spells.two (a := UInt8.ofNat (code / 64 % 32 + 192)) (by omega) (by omega)
        (isContinuation_ofNat code)
      rw [same, sextet] at spells
      convert spells using 1
      omega
    · split
      · have same := toNat_ofNat (n := code / 4096 % 16 + 224) (by omega)
        have spells := Spells.three (a := UInt8.ofNat (code / 4096 % 16 + 224)) (by omega)
          (by omega) (isContinuation_ofNat (code / 64)) (isContinuation_ofNat code)
        rw [same, sextet, sextet] at spells
        convert spells using 1
        omega
      · have same := toNat_ofNat (n := code / 262144 % 8 + 240) (by omega)
        have spells := Spells.four (a := UInt8.ofNat (code / 262144 % 8 + 240)) (by omega)
          (by omega) (isContinuation_ofNat (code / 4096)) (isContinuation_ofNat (code / 64))
          (isContinuation_ofNat code)
        rw [same, sextet, sextet, sextet] at spells
        convert spells using 1
        omega

theorem utf8EncodeChar_genuine (char : Char) :
    Genuine (String.utf8EncodeChar char) char.toNat := by
  refine ⟨char.valid, ?_⟩
  rw [utf8EncodeChar_eq]
  split
  · exact Nat.zero_le _
  · split
    · change 128 ≤ char.toNat
      omega
    · split
      · change 2048 ≤ char.toNat
        omega
      · change 65536 ≤ char.toNat
        omega

theorem ofNat_eq {n : Nat} {c : UInt8} (same : n = c.toNat) : UInt8.ofNat n = c := by
  rw [same, UInt8.ofNat_toNat]

theorem Spells.eq_utf8EncodeChar {bytes : Text} {char : Char}
    (spells : Spells bytes char.toNat) (least : leastCode bytes.length ≤ char.toNat) :
    bytes = String.utf8EncodeChar char := by
  rw [utf8EncodeChar_eq]
  generalize char.toNat = code at spells least
  cases spells with
  | one first =>
      rw [if_pos (by omega), UInt8.ofNat_toNat]
  | @two a b low high second =>
      obtain ⟨above, below⟩ := second
      change 128 ≤ _ at least
      rw [if_neg (by omega), if_pos (by omega), ofNat_eq (c := a) (by omega),
        ofNat_eq (c := b) (by omega)]
  | @three a b c low high second third =>
      obtain ⟨above, below⟩ := second
      obtain ⟨over_, under⟩ := third
      change 2048 ≤ _ at least
      rw [if_neg (by omega), if_neg (by omega), if_pos (by omega), ofNat_eq (c := a) (by omega),
        ofNat_eq (c := b) (by omega), ofNat_eq (c := c) (by omega)]
  | @four a b c d low high second third fourth =>
      obtain ⟨above, below⟩ := second
      obtain ⟨over_, under⟩ := third
      obtain ⟨up, down⟩ := fourth
      change 65536 ≤ _ at least
      rw [if_neg (by omega), if_neg (by omega), if_neg (by omega), ofNat_eq (c := a) (by omega),
        ofNat_eq (c := b) (by omega), ofNat_eq (c := c) (by omega), ofNat_eq (c := d) (by omega)]

theorem encodeUtf8_char (char : Char) :
    encodeUtf8 char.toNat = .ok (String.utf8EncodeChar char) := by
  have most := char_le char
  rw [utf8EncodeChar_eq]
  generalize char.toNat = code at most
  have sextet (n : Nat) : 128 + n % 64 = n % 64 + 128 := Nat.add_comm _ _
  unfold encodeUtf8
  rw [if_neg (by omega)]
  by_cases one : code < 128
  · rw [if_pos one, if_pos (Nat.le_of_lt_succ one)]
  · rw [if_neg one, if_neg (show ¬code ≤ 127 by omega)]
    by_cases two : code < 2048
    · have first : 192 + code / 64 = code / 64 % 32 + 192 := by omega
      rw [if_pos two, if_pos (Nat.le_of_lt_succ two), first, sextet]
    · rw [if_neg two, if_neg (show ¬code ≤ 2047 by omega)]
      by_cases three : code < 65536
      · have first : 224 + code / 4096 = code / 4096 % 16 + 224 := by omega
        rw [if_pos three, if_pos (Nat.le_of_lt_succ three), first, sextet, sextet]
      · have first : 240 + code / 262144 = code / 262144 % 8 + 240 := by omega
        rw [if_neg three, if_neg (show ¬code ≤ 65535 by omega), first, sextet, sextet, sextet]

/-! ### What the decoder accepts -/

def Decodes (text : Text) (codes : List Nat) : Prop :=
  ∃ groups : List Text, List.Forall₂ Spells groups codes ∧ text = groups.flatten

theorem continueCode_eq_ok {i step code final : Nat} {tail : Text} :
    continueCode i step code tail = .ok final ↔
      (∀ c ∈ tail, IsContinuation c) ∧
        final = tail.foldl (fun code c => code * 64 + (c.toNat - 128)) code := by
  induction tail generalizing step code with
  | nil => simp [continueCode, eq_comm]
  | cons next rest ih =>
      unfold continueCode
      rw [List.forall_mem_cons]
      by_cases other : next < 128 ∨ 192 ≤ next
      · have outside : ¬IsContinuation next := by
          rintro ⟨above, below⟩
          rcases other with (low : next.toNat < 128) | (high : 192 ≤ next.toNat) <;> omega
        rw [if_pos other]
        exact ⟨(nomatch ·), fun both => absurd both.1.1 outside⟩
      · have inside : IsContinuation next := by
          rw [not_or] at other
          exact ⟨Nat.le_of_not_lt other.1, Nat.lt_of_not_le other.2⟩
        rw [if_neg other, ih, List.foldl_cons]
        simp only [inside, true_and]

theorem lead_cases {first : UInt8} {width code : Nat} (found : lead first = some (width, code)) :
    (width = 2 ∧ 192 ≤ first.toNat ∧ first.toNat < 224 ∧ code = first.toNat - 192) ∨
      (width = 3 ∧ 224 ≤ first.toNat ∧ first.toNat < 240 ∧ code = first.toNat - 224) ∨
      width = 4 ∧ 240 ≤ first.toNat ∧ first.toNat < 248 ∧ code = first.toNat - 240 := by
  unfold lead at found
  split at found
  · next range =>
      cases found
      exact .inl ⟨rfl, range.1, range.2, rfl⟩
  · split at found
    · next range =>
        cases found
        exact .inr (.inl ⟨rfl, range.1, range.2, rfl⟩)
    · split at found
      · next range =>
          cases found
          exact .inr (.inr ⟨rfl, range.1, range.2, rfl⟩)
      · cases found

theorem spells_of_lead {first : UInt8} {width code : Nat}
    (found : lead first = some (width, code)) {tail : Text} (length : tail.length + 1 = width)
    (are : ∀ c ∈ tail, IsContinuation c) :
    Spells (first :: tail) (tail.foldl (fun code c => code * 64 + (c.toNat - 128)) code) := by
  rcases lead_cases found with two | three | four
  · obtain ⟨same, low, high, bits⟩ := two
    obtain ⟨b, rfl⟩ := List.length_eq_one_iff.mp (show tail.length = 1 by omega)
    rw [bits]
    exact .two low high (are b (by simp))
  · obtain ⟨same, low, high, bits⟩ := three
    obtain ⟨b, c, rfl⟩ := List.length_eq_two.mp (show tail.length = 2 by omega)
    rw [bits]
    exact .three low high (are b (by simp)) (are c (by simp))
  · obtain ⟨same, low, high, bits⟩ := four
    obtain ⟨b, c, d, rfl⟩ := List.length_eq_three.mp (show tail.length = 3 by omega)
    rw [bits]
    exact .four low high (are b (by simp)) (are c (by simp)) (are d (by simp))

theorem decodes_cons {group rest : Text} {code : Nat} {codes : List Nat}
    (spells : Spells group code) (decodes : Decodes rest codes) :
    Decodes (group ++ rest) (code :: codes) := by
  obtain ⟨groups, each, rfl⟩ := decodes
  exact ⟨group :: groups, .cons spells each, rfl⟩

theorem map_eq_ok {α β : Type} {result : Result α} {change : α → β} {value : β}
    (mapped : result.map change = .ok value) : ∃ inner, result = .ok inner ∧ change inner = value := by
  cases result with
  | error message => cases mapped
  | ok inner => exact ⟨inner, rfl, Except.ok.inj mapped⟩

theorem decodeUtf8Loop_decodes {i : Nat} {text : Text} {codes : List Nat}
    (decoded : decodeUtf8Loop i text = .ok codes) : Decodes text codes := by
  fun_induction decodeUtf8Loop i text generalizing codes with
  | case1 =>
      cases decoded
      exact ⟨[], .nil, rfl⟩
  | case2 i first rest plain ih =>
      obtain ⟨codes, after, rfl⟩ := map_eq_ok decoded
      exact decodes_cons (.one plain) (ih after)
  | case3 => cases decoded
  | case4 => cases decoded
  | case5 => cases decoded
  | case6 i first rest plain width code found enough final continued ih =>
      obtain ⟨codes, after, rfl⟩ := map_eq_ok decoded
      obtain ⟨are, rfl⟩ := continueCode_eq_ok.mp continued
      have length : (rest.take (width - 1)).length + 1 = width := by
        rw [List.length_take]
        rcases lead_cases found with ⟨rfl, _⟩ | ⟨rfl, _⟩ | ⟨rfl, _⟩ <;> omega
      have whole := decodes_cons (spells_of_lead found length are) (ih after)
      rw [List.cons_append, List.take_append_drop] at whole
      exact whole

theorem decodeUtf8Loop_plain {first : UInt8} (plain : first.toNat < 128) (i : Nat) (rest : Text) :
    decodeUtf8Loop i (first :: rest) =
      (decodeUtf8Loop (i + 1) rest).map (first.toNat :: ·) := by
  rw [decodeUtf8Loop]
  exact if_pos plain

theorem decodeUtf8Loop_lead {first : UInt8} {width code : Nat}
    (found : lead first = some (width, code)) {tail : Text} (length : tail.length + 1 = width)
    (are : ∀ c ∈ tail, IsContinuation c) (i : Nat) (rest : Text) :
    decodeUtf8Loop i (first :: (tail ++ rest)) =
      (decodeUtf8Loop (i + width) rest).map
        (tail.foldl (fun code c => code * 64 + (c.toNat - 128)) code :: ·) := by
  have high : ¬first < 128 := by
    intro low
    have small : first.toNat < 128 := low
    rcases lead_cases found with two | three | four <;> omega
  have inside : ¬(tail ++ rest).length + 1 < width := by
    rw [List.length_append]
    omega
  have taken : (tail ++ rest).take (width - 1) = tail := List.take_left' (by omega)
  have left : (tail ++ rest).drop (width - 1) = rest := List.drop_left' (by omega)
  rw [decodeUtf8Loop, if_neg high, found]
  dsimp only
  rw [if_neg inside, taken, left, (continueCode_eq_ok (i := i)).mpr ⟨are, rfl⟩]

theorem decodeUtf8Loop_spells {group : Text} {code : Nat} (spells : Spells group code) (i : Nat)
    (rest : Text) :
    decodeUtf8Loop i (group ++ rest) =
      (decodeUtf8Loop (i + group.length) rest).map (code :: ·) := by
  cases spells with
  | one first => exact decodeUtf8Loop_plain first i rest
  | @two a b low high second =>
      have found : lead a = some (2, a.toNat - 192) := if_pos ⟨low, high⟩
      exact @decodeUtf8Loop_lead _ _ _ found [b] rfl (by simpa using second) i rest
  | @three a b c low high second third =>
      have found : lead a = some (3, a.toNat - 224) :=
        (if_neg fun two => Nat.not_lt.mpr low two.2).trans (if_pos ⟨low, high⟩)
      exact @decodeUtf8Loop_lead _ _ _ found [b, c] rfl (by simpa using ⟨second, third⟩) i rest
  | @four a b c d low high second third fourth =>
      have above : 224 ≤ a.toNat := by omega
      have found : lead a = some (4, a.toNat - 240) :=
        (if_neg fun two => Nat.not_lt.mpr above two.2).trans
          ((if_neg fun three => Nat.not_lt.mpr low three.2).trans (if_pos ⟨low, high⟩))
      exact @decodeUtf8Loop_lead _ _ _ found [b, c, d] rfl
        (by simpa using ⟨second, third, fourth⟩) i rest

theorem decodeUtf8Loop_flatten {groups : List Text} {codes : List Nat}
    (each : List.Forall₂ Spells groups codes) (i : Nat) :
    decodeUtf8Loop i groups.flatten = .ok codes := by
  induction each generalizing i with
  | nil => rw [List.flatten_nil, decodeUtf8Loop]
  | cons spells _ ih =>
      rw [List.flatten_cons, decodeUtf8Loop_spells spells, ih]
      rfl

theorem decodeUtf8_eq_ok {text : Text} {codes : List Nat} :
    decodeUtf8 text = .ok codes ↔ Decodes text codes := by
  constructor
  · exact decodeUtf8Loop_decodes
  · rintro ⟨groups, each, rfl⟩
    exact decodeUtf8Loop_flatten each 0

theorem decodeUtf8_isOk {text : Text} :
    (decodeUtf8 text).isOk = true ↔ ∃ codes, Decodes text codes := by
  rw [← exists_congr fun codes => @decodeUtf8_eq_ok text codes]
  cases decodeUtf8 text <;> simp [Except.isOk, Except.toBool]

/-! ### A text is a run of sequences in one way -/

theorem Spells.unique {group other rest more : Text} {code codeOther : Nat}
    (spells : Spells group code) (again : Spells other codeOther)
    (same : group ++ rest = other ++ more) : group = other ∧ rest = more := by
  have length : group.length = other.length := by
    cases spells <;> cases again <;> first
      | rfl
      | (have head := congrArg UInt8.toNat (List.cons.inj same).1
         omega)
  exact List.append_inj same length

theorem Spells.ne_nil {group : Text} {code : Nat} (spells : Spells group code) : group ≠ [] := by
  cases spells <;> exact List.cons_ne_nil _ _

theorem groups_unique {groups others : List Text} {codes codesOther : List Nat}
    (each : List.Forall₂ Spells groups codes) (again : List.Forall₂ Spells others codesOther)
    (same : groups.flatten = others.flatten) : groups = others := by
  induction each generalizing others codesOther with
  | nil =>
      cases again with
      | nil => rfl
      | cons spells _ =>
          exact absurd (List.append_eq_nil_iff.mp same.symm).1 spells.ne_nil
  | cons spells _ ih =>
      cases again with
      | nil => exact absurd (List.append_eq_nil_iff.mp same).1 spells.ne_nil
      | cons other rest =>
          obtain ⟨first, after⟩ := spells.unique other same
          rw [first, ih rest after]

theorem chars_spell (chars : List Char) :
    List.Forall₂ Spells (chars.map String.utf8EncodeChar) (chars.map Char.toNat) := by
  induction chars with
  | nil => exact .nil
  | cons char rest ih => exact .cons (utf8EncodeChar_spells char) ih

theorem chars_of_genuine {groups : List Text} {codes : List Nat}
    (each : List.Forall₂ Spells groups codes) (genuine : List.Forall₂ Genuine groups codes) :
    ∃ chars : List Char, groups = chars.map String.utf8EncodeChar := by
  induction each with
  | nil => exact ⟨[], rfl⟩
  | @cons group code _ _ spells _ ih =>
      cases genuine with
      | cons first rest =>
          obtain ⟨chars, same⟩ := ih rest
          obtain ⟨valid, least⟩ := first
          have known : (Char.ofNatAux code valid).toNat = code := rfl
          rw [← known] at spells least
          exact ⟨Char.ofNatAux code valid :: chars,
            congrArg₂ List.cons (spells.eq_utf8EncodeChar least) same⟩

theorem wellFormed_iff {groups : List Text} {codes : List Nat}
    (each : List.Forall₂ Spells groups codes) :
    WellFormed groups.flatten ↔ List.Forall₂ Genuine groups codes := by
  constructor
  · rintro ⟨chars, same⟩
    rw [List.flatMap_def] at same
    have groupsEq := groups_unique each (chars_spell chars) same
    have codesEq : Except.ok (ε := Text) codes = .ok (chars.map Char.toNat) := by
      rw [← decodeUtf8Loop_flatten each 0, same, decodeUtf8Loop_flatten (chars_spell chars) 0]
    rw [groupsEq, Except.ok.inj codesEq, List.forall₂_map_left_iff, List.forall₂_map_right_iff]
    exact List.forall₂_same.mpr fun char _ => utf8EncodeChar_genuine char
  · intro genuine
    obtain ⟨chars, rfl⟩ := chars_of_genuine each genuine
    exact ⟨chars, List.flatMap_def.symm⟩

/-! ### When decoding is exact -/

theorem mapM_encodeUtf8 (chars : List Char) :
    (chars.map Char.toNat).mapM encodeUtf8 = .ok (chars.map String.utf8EncodeChar) := by
  induction chars with
  | nil => rfl
  | cons char rest ih =>
      rw [List.map_cons, List.mapM_cons, encodeUtf8_char, ih]
      rfl

structure DecodesExactly (text : Text) : Prop where
  decodes : (decodeUtf8 text).isOk = true ↔ WellFormed text
  validates : isValidUtf8 text = true ↔ WellFormed text
  renders : WellFormed text → ∃ parts, characters text = .ok (.ok parts) ∧ parts.flatten = text
  returns : ∃ result, characters text = .ok result

theorem characters_wellFormed {text : Text} (wellFormed : WellFormed text) :
    ∃ parts, characters text = .ok (.ok parts) ∧ parts.flatten = text := by
  obtain ⟨chars, rfl⟩ := wellFormed
  have decoded : decodeUtf8 (chars.flatMap String.utf8EncodeChar) = .ok (chars.map Char.toNat) :=
    decodeUtf8_eq_ok.mpr ⟨_, chars_spell chars, List.flatMap_def⟩
  refine ⟨chars.map String.utf8EncodeChar, ?_, List.flatMap_def.symm⟩
  unfold characters
  rw [decoded]
  dsimp only
  rw [mapM_encodeUtf8]
  rfl

theorem decodesExactly_iff (text : Text) :
    DecodesExactly text ↔ ∀ groups codes, List.Forall₂ Spells groups codes →
      text = groups.flatten → List.Forall₂ Genuine groups codes := by
  constructor
  · rintro exact_ groups codes each rfl
    have accepted := decodeUtf8_isOk.mpr ⟨codes, groups, each, rfl⟩
    exact (wellFormed_iff each).mp (exact_.decodes.mp accepted)
  · intro genuine
    have decodes : (decodeUtf8 text).isOk = true ↔ WellFormed text := by
      rw [decodeUtf8_isOk]
      constructor
      · rintro ⟨codes, groups, each, rfl⟩
        exact (wellFormed_iff each).mpr (genuine groups codes each rfl)
      · rintro ⟨chars, rfl⟩
        exact ⟨_, _, chars_spell chars, List.flatMap_def⟩
    refine ⟨decodes, decodes, characters_wellFormed, ?_⟩
    cases decoded : decodeUtf8 text with
    | error message =>
        unfold characters
        rw [decoded]
        exact ⟨_, rfl⟩
    | ok codes =>
        have accepted : (decodeUtf8 text).isOk = true := by
          rw [decoded]
          rfl
        obtain ⟨parts, answers, _⟩ := characters_wellFormed (decodes.mp accepted)
        exact ⟨_, answers⟩

/-- Characters come back from their bytes.  A text is decoded exactly where it is no run of
sequences at all, or a run of genuine ones. -/
theorem decodeUtf8_exact (chars : List Char) (text : Text) :
    (∃ parts, (chars.map Char.toNat).mapM encodeUtf8 = .ok parts ∧
      decodeUtf8 parts.flatten = .ok (chars.map Char.toNat)) ∧
    (DecodesExactly text ↔ ∀ groups codes, List.Forall₂ Spells groups codes →
      text = groups.flatten → List.Forall₂ Genuine groups codes) :=
  ⟨⟨_, mapM_encodeUtf8 chars, decodeUtf8Loop_flatten (chars_spell chars) 0⟩,
    decodesExactly_iff text⟩

/-- Two bytes for U+0000, and four for a code that the encoder refuses. -/
theorem overlong_accepted :
    decodeUtf8 [0xC0, 0x80] = .ok [0] ∧ isValidUtf8 [0xC0, 0x80] = true ∧
      ¬WellFormed [0xC0, 0x80] ∧
      characters [0xF7, 0xBF, 0xBF, 0xBF] = .error (ascii "not a code point: 2097151") := by
  have overlong : List.Forall₂ Spells [[0xC0, 0x80]] [0] :=
    .cons (.two (by decide) (by decide) (by unfold IsContinuation; decide)) .nil
  have beyond : List.Forall₂ Spells [[0xF7, 0xBF, 0xBF, 0xBF]] [2097151] :=
    .cons (.four (by decide) (by decide) (by unfold IsContinuation; decide)
      (by unfold IsContinuation; decide) (by unfold IsContinuation; decide)) .nil
  have decoded : decodeUtf8 [0xC0, 0x80] = .ok [0] := decodeUtf8Loop_flatten overlong 0
  have accepted : decodeUtf8 [0xF7, 0xBF, 0xBF, 0xBF] = .ok [2097151] :=
    decodeUtf8Loop_flatten beyond 0
  refine ⟨decoded, by rw [isValidUtf8, decoded]; rfl, fun wellFormed => ?_, ?_⟩
  · cases (wellFormed_iff overlong).mp wellFormed with
    | cons first _ => exact absurd first.2 (by decide)
  · unfold characters
    rw [accepted]
    rfl

end CScript.Encoding
