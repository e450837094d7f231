/-
One string searched for another.

Offsets are of type `int`: a sum that leaves it is undefined, and so is a
comparison with bytes outside the haystack.  The answer -1 says that there is no
occurrence.
-/

import CScript.Runtime.Value
import Mathlib.Tactic.Common

namespace CScript.StringSearch

/-! ### The source -/

inductive FindResult where
  | answer (i : Int)
  | overflow
  | outside
  deriving DecidableEq, Repr

section

variable (haystack needle : List UInt8)

/-- `memcmp(haystack->chars + i, needle->chars, needle->length) == 0`, or none
where it leaves the haystack. -/
def compareAt (i : Int) : Option Bool :=
  if 0 ≤ i ∧ i + needle.length ≤ haystack.length then
    some (decide ((haystack.drop i.toNat).take needle.length = needle))
  else none

/-- The loop.  Its needle is not empty, so `i++` is at most the sum before it. -/
def findLoop (i : Int) : FindResult :=
  if ¬FitsInt (i + needle.length) then .overflow
  else if i + needle.length ≤ haystack.length then
    match compareAt haystack needle i with
    | none => .outside
    | some true => .answer i
    | some false => findLoop (i + 1)
  else .answer (-1)
  termination_by (haystack.length + 1 - (i + needle.length)).toNat

def csNativeFindFrom (start : Int) : FindResult :=
  if needle.length = 0 then
    .answer (if start ≤ haystack.length then start else haystack.length)
  else findLoop haystack needle (if start < 0 then 0 else start)

/-- `csNativeFindFrom(receiver, needle, 0) >= 0`. -/
def stringIncludes : Option Bool :=
  match csNativeFindFrom haystack needle 0 with
  | .answer i => some (decide (0 ≤ i))
  | .overflow => none
  | .outside => none

/-! ### Occurrences -/

def Occurs (i : Int) : Prop :=
  0 ≤ i ∧ i + needle.length ≤ haystack.length ∧
    (haystack.drop i.toNat).take needle.length = needle

def Finds (start i : Int) : Prop :=
  if needle = [] then i = min (max start 0) haystack.length
  else
    (max start 0 ≤ i ∧ Occurs haystack needle i ∧
      ∀ j, max start 0 ≤ j → j < i → ¬Occurs haystack needle j) ∨
    (i = -1 ∧ ∀ j, max start 0 ≤ j → ¬Occurs haystack needle j)

def LoopFinds (i : Int) (result : FindResult) : Prop :=
  (∃ j, result = .answer j ∧ i ≤ j ∧ Occurs haystack needle j ∧
    ∀ k, i ≤ k → k < j → ¬Occurs haystack needle k) ∨
  (result = .answer (-1) ∧ ∀ k, i ≤ k → ¬Occurs haystack needle k)

end

theorem compareAt_of_room {haystack needle : List UInt8} {i : Int} (low : 0 ≤ i)
    (room : i + needle.length ≤ haystack.length) :
    ∃ same, compareAt haystack needle i = some same ∧ (same = true ↔ Occurs haystack needle i) := by
  refine ⟨_, if_pos ⟨low, room⟩, ?_⟩
  rw [decide_eq_true_iff]
  exact ⟨fun same => ⟨low, room, same⟩, fun occurs => occurs.2.2⟩

theorem not_occurs_of_short {haystack needle : List UInt8} {i : Int}
    (short : ¬i + needle.length ≤ haystack.length) {k : Int} (behind : i ≤ k) :
    ¬Occurs haystack needle k := by
  rintro ⟨_, room, _⟩
  omega

theorem findLoop_finds {haystack needle : List UInt8} (fits : haystack.length < 2147483648)
    {i : Int} (low : 0 ≤ i) (first : FitsInt (i + needle.length))
    (later : haystack.length < 2147483647 ∨ ∃ k, i ≤ k ∧ Occurs haystack needle k) :
    LoopFinds haystack needle i (findLoop haystack needle i) := by
  unfold findLoop
  rw [if_neg (not_not.mpr first)]
  by_cases room : i + needle.length ≤ haystack.length
  · rw [if_pos room]
    obtain ⟨same, compared, occurs⟩ := compareAt_of_room low room
    rw [compared]
    cases same with
    | true =>
        exact Or.inl ⟨i, rfl, Int.le_refl i, occurs.mp rfl, fun k behind below => by omega⟩
    | false =>
        have behindNext : ∀ k, i ≤ k → Occurs haystack needle k → i + 1 ≤ k := by
          intro k behind there
          by_contra before
          have same : k = i := by omega
          rw [same] at there
          cases occurs.mpr there
        have next : FitsInt (i + 1 + needle.length) := by
          unfold FitsInt
          rcases later with short | ⟨k, behind, there⟩
          · omega
          · have beyond := behindNext k behind there
            have inside := there.2.1
            omega
        have rest := findLoop_finds fits (show 0 ≤ i + 1 by omega) next
          (later.imp_right fun ⟨k, behind, there⟩ => ⟨k, behindNext k behind there, there⟩)
        have notBefore : ∀ k, i ≤ k → k < i + 1 → ¬Occurs haystack needle k := by
          intro k behind below there
          have beyond := behindNext k behind there
          omega
        rcases rest with ⟨j, answered, behind, there, earlier⟩ | ⟨answered, nowhere⟩
        · refine Or.inl ⟨j, answered, by omega, there, fun k behind below => ?_⟩
          by_cases here : k < i + 1
          · exact notBefore k behind here
          · exact earlier k (by omega) below
        · refine Or.inr ⟨answered, fun k behind => ?_⟩
          by_cases here : k < i + 1
          · exact notBefore k behind here
          · exact nowhere k (by omega)
  · rw [if_neg room]
    exact Or.inr ⟨rfl, fun k behind => not_occurs_of_short room behind⟩
  termination_by (haystack.length + 1 - (i + needle.length)).toNat

theorem findLoop_overflows {haystack needle : List UInt8} (longest : haystack.length = 2147483647)
    {i : Int} (low : 0 ≤ i) (nowhere : ∀ k, i ≤ k → ¬Occurs haystack needle k) :
    findLoop haystack needle i = .overflow := by
  unfold findLoop
  by_cases first : FitsInt (i + needle.length)
  · have room : i + needle.length ≤ haystack.length := by
      unfold FitsInt at first
      omega
    rw [if_neg (not_not.mpr first), if_pos room]
    obtain ⟨same, compared, occurs⟩ := compareAt_of_room low room
    rw [compared]
    cases same with
    | true => exact absurd (occurs.mp rfl) (nowhere i (Int.le_refl i))
    | false => exact findLoop_overflows longest (by omega) (fun k behind => nowhere k (by omega))
  · rw [if_pos first]
  termination_by (haystack.length + 1 - (i + needle.length)).toNat

/-- What is asked of a search: an empty needle is not looked for from below the
haystack, and the sums that bound the loop do not leave `int`. -/
def Searchable (haystack needle : List UInt8) (start : Int) : Prop :=
  if needle = [] then 0 ≤ start
  else FitsInt (max start 0 + needle.length) ∧
    (haystack.length < 2147483647 ∨ ∃ i, max start 0 ≤ i ∧ Occurs haystack needle i)

theorem clamped_start (start : Int) : (if start < 0 then 0 else start) = max start 0 := by
  split <;> omega

theorem csNativeFindFrom_finds {haystack needle : List UInt8} {start : Int}
    (haystackFits : haystack.length < 2147483648) (searchable : Searchable haystack needle start) :
    ∃ i, csNativeFindFrom haystack needle start = .answer i ∧ Finds haystack needle start i := by
  unfold Searchable at searchable
  unfold csNativeFindFrom Finds
  by_cases empty : needle = []
  · simp only [empty, List.length_nil, if_true] at searchable ⊢
    refine ⟨_, rfl, ?_⟩
    split <;> omega
  · have size : needle.length ≠ 0 := fun none_ => empty (List.length_eq_zero_iff.mp none_)
    simp only [if_neg empty, if_neg size, clamped_start] at searchable ⊢
    obtain ⟨first, later⟩ := searchable
    rcases findLoop_finds haystackFits (show 0 ≤ max start 0 by omega) first later with
      ⟨j, answered, behind, there, earlier⟩ | ⟨answered, nowhere⟩
    · exact ⟨j, answered, Or.inl ⟨behind, there, earlier⟩⟩
    · exact ⟨-1, answered, Or.inr ⟨rfl, nowhere⟩⟩

/-- The answer is as it should be, for strings whose lengths are `int`s, if and
only if the search is one of those. -/
theorem csNativeFindFrom_finds_iff (haystack needle : List UInt8) (start : Int)
    (haystackFits : haystack.length < 2147483648) :
    (∃ i, csNativeFindFrom haystack needle start = .answer i ∧ Finds haystack needle start i) ↔
      Searchable haystack needle start := by
  refine ⟨?_, csNativeFindFrom_finds haystackFits⟩
  rintro ⟨i, answered, found⟩
  unfold csNativeFindFrom at answered
  unfold Finds at found
  unfold Searchable
  by_cases empty : needle = []
  · simp only [empty, List.length_nil, if_true, FindResult.answer.injEq] at answered found ⊢
    split at answered <;> omega
  · have size : needle.length ≠ 0 := fun none_ => empty (List.length_eq_zero_iff.mp none_)
    simp only [if_neg empty, if_neg size, clamped_start] at answered found ⊢
    have first : FitsInt (max start 0 + needle.length) := by
      by_contra overflows
      rw [findLoop, if_pos overflows] at answered
      cases answered
    refine ⟨first, ?_⟩
    by_contra neither
    rw [not_or] at neither
    have nowhere : ∀ k, max start 0 ≤ k → ¬Occurs haystack needle k :=
      fun k behind there => neither.2 ⟨k, behind, there⟩
    rw [findLoop_overflows (by omega) (by omega) nowhere] at answered
    cases answered

theorem csNativeFindFrom_finds_negative :
    ∃ i, csNativeFindFrom (ascii "aabab") (ascii "ab") (-3) = .answer i ∧
      Finds (ascii "aabab") (ascii "ab") (-3) i :=
  (csNativeFindFrom_finds_iff (ascii "aabab") (ascii "ab") (-3) (by decide)).mpr
    (by
      unfold Searchable
      rw [if_neg (by decide)]
      exact ⟨by decide, Or.inl (by decide)⟩)

/-- From below the haystack an empty needle is found where the search began. -/
theorem empty_needle_below :
    ¬∀ (haystack needle : List UInt8) (start : Int), haystack.length < 2147483648 →
      needle.length < 2147483648 → FitsInt start →
      ∃ i, csNativeFindFrom haystack needle start = .answer i ∧
        Finds haystack needle start i := by
  intro claim
  obtain ⟨i, answered, expected⟩ := claim (ascii "abc") [] (-5) (by decide) (by decide) (by decide)
  have below : csNativeFindFrom (ascii "abc") [] (-5) = .answer (-5) := rfl
  rw [below, FindResult.answer.injEq] at answered
  rw [← answered] at expected
  cases expected

theorem stringIncludes_iff (haystack needle : List UInt8)
    (haystackFits : haystack.length < 2147483647) (needleFits : needle.length < 2147483648) :
    ∃ found, stringIncludes haystack needle = some found ∧
      (found = true ↔ ∃ i, Occurs haystack needle i) := by
  have searchable : Searchable haystack needle 0 := by
    unfold Searchable
    split
    · exact Int.le_refl 0
    · refine ⟨?_, Or.inl haystackFits⟩
      unfold FitsInt
      omega
  obtain ⟨i, answered, finds⟩ :=
    csNativeFindFrom_finds (show haystack.length < 2147483648 by omega) searchable
  unfold stringIncludes
  rw [answered]
  refine ⟨_, rfl, ?_⟩
  rw [decide_eq_true_iff]
  unfold Finds at finds
  split at finds
  · rename_i empty
    rw [empty]
    exact ⟨fun _ => ⟨0, Int.le_refl 0, by simp, rfl⟩, fun _ => by omega⟩
  · rcases finds with ⟨low, there, _⟩ | ⟨missing, nowhere⟩
    · exact ⟨fun _ => ⟨i, there⟩, fun _ => by omega⟩
    · exact ⟨fun low => by omega, fun ⟨j, there⟩ => absurd there (nowhere j (by
        have low := there.1
        omega))⟩

end CScript.StringSearch
