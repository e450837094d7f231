/-
Six ways to round a rational number to a whole one.

A mode is a relation between a number and its rounding; each number has exactly one
rounding in each mode.  A number is rounded by its size: the modes that look at the
sign change places when the number is negated.
-/

import Mathlib.Algebra.Order.Floor.Ring
import Mathlib.Data.Rat.Floor
import Mathlib.Tactic.Linarith
import Mathlib.Tactic.NormNum

namespace CScript.Rounding

inductive Mode where
  | down
  | up
  | floor
  | ceil
  | halfEven
  | halfUp
  deriving DecidableEq, Repr

namespace Mode

/-- `n` is what the mode makes of `x`. -/
def Rounds (mode : Mode) (x : ℚ) (n : ℤ) : Prop :=
  match mode with
  | down => |(n : ℚ)| ≤ |x| ∧ |x| < |(n : ℚ)| + 1 ∧ 0 ≤ x * n
  | up => |x| ≤ |(n : ℚ)| ∧ |(n : ℚ)| < |x| + 1 ∧ 0 ≤ x * n
  | floor => n ≤ x ∧ x < n + 1
  | ceil => x ≤ n ∧ n < x + 1
  | halfEven => 2 * |x - n| ≤ 1 ∧ (2 * |x - n| = 1 → Even n)
  | halfUp => 2 * |x - n| ≤ 1 ∧ (2 * |x - n| = 1 → |x| < |(n : ℚ)|)

/-- The mode that rounds `-x` to `-n` where this one rounds `x` to `n`. -/
def mirror : Mode → Mode
  | floor => ceil
  | ceil => floor
  | mode => mode

theorem rounds_neg {mode : Mode} {x : ℚ} {n : ℤ} (rounds : mode.mirror.Rounds x n) :
    mode.Rounds (-x) (-n) := by
  cases mode with
  | down =>
      obtain ⟨low, high, sign⟩ := rounds
      simpa only [Rounds, Int.cast_neg, abs_neg, neg_mul_neg] using ⟨low, high, sign⟩
  | up =>
      obtain ⟨low, high, sign⟩ := rounds
      simpa only [Rounds, Int.cast_neg, abs_neg, neg_mul_neg] using ⟨low, high, sign⟩
  | floor =>
      obtain ⟨low, high⟩ := rounds
      simp only [Rounds, Int.cast_neg]
      constructor <;> linarith
  | ceil =>
      obtain ⟨low, high⟩ := rounds
      simp only [Rounds, Int.cast_neg]
      constructor <;> linarith
  | halfEven =>
      obtain ⟨near, tie⟩ := rounds
      have same : |-x - ((-n : ℤ) : ℚ)| = |x - n| := by
        rw [Int.cast_neg, ← abs_neg]
        congr 1
        ring
      exact ⟨by rw [same]; exact near, fun equal => (tie (by rw [← same]; exact equal)).neg⟩
  | halfUp =>
      obtain ⟨near, tie⟩ := rounds
      have same : |-x - ((-n : ℤ) : ℚ)| = |x - n| := by
        rw [Int.cast_neg, ← abs_neg]
        congr 1
        ring
      refine ⟨by rw [same]; exact near, fun equal => ?_⟩
      rw [Int.cast_neg, abs_neg, abs_neg]
      exact tie (by rw [← same]; exact equal)

theorem rounds_whole (mode : Mode) (n : ℤ) : mode.Rounds n n := by
  cases mode with
  | down => exact ⟨le_rfl, lt_add_one _, mul_self_nonneg _⟩
  | up => exact ⟨le_rfl, lt_add_one _, mul_self_nonneg _⟩
  | floor => exact ⟨le_rfl, lt_add_one _⟩
  | ceil => exact ⟨le_rfl, lt_add_one _⟩
  | halfEven => exact ⟨by norm_num, by norm_num⟩
  | halfUp => exact ⟨by norm_num, by norm_num⟩

theorem rounds_size {mode : Mode} {x : ℚ} {n : ℤ} (rounds : mode.Rounds x n) :
    |(n : ℚ)| < |x| + 1 := by
  have near : |x - n| < 1 → |(n : ℚ)| < |x| + 1 := by
    intro distance
    have triangle := abs_sub_abs_le_abs_sub (n : ℚ) x
    rw [abs_sub_comm] at triangle
    linarith
  cases mode with
  | down =>
      obtain ⟨low, _, _⟩ := rounds
      linarith
  | up => exact rounds.2.1
  | floor =>
      obtain ⟨low, high⟩ := rounds
      exact near (abs_lt.mpr ⟨by linarith, by linarith⟩)
  | ceil =>
      obtain ⟨low, high⟩ := rounds
      exact near (abs_lt.mpr ⟨by linarith, by linarith⟩)
  | halfEven =>
      have distance := rounds.1
      exact near (by linarith)
  | halfUp =>
      have distance := rounds.1
      exact near (by linarith)

/-! ### Rounding by size -/

/-- What a mode makes of a number that is not negative, from its whole part and
what is left of it. -/
def ofSize (mode : Mode) (whole : ℤ) (left : ℚ) : ℤ :=
  match mode with
  | down => whole
  | floor => whole
  | up => if left = 0 then whole else whole + 1
  | ceil => if left = 0 then whole else whole + 1
  | halfEven => if 1 < 2 * left ∨ 2 * left = 1 ∧ ¬Even whole then whole + 1 else whole
  | halfUp => if 1 ≤ 2 * left then whole + 1 else whole

theorem ofSize_rounds (mode : Mode) {whole : ℤ} {left : ℚ} (positive : 0 ≤ whole)
    (low : 0 ≤ left) (high : left < 1) :
    mode.Rounds (whole + left) (mode.ofSize whole left) := by
  have size : (0 : ℚ) ≤ whole := by exact_mod_cast positive
  have above : |(whole : ℚ) + left| = whole + left := abs_of_nonneg (by linarith)
  have here : |(whole : ℚ)| = whole := abs_of_nonneg size
  have next : |((whole + 1 : ℤ) : ℚ)| = whole + 1 := by
    rw [Int.cast_add, Int.cast_one]
    exact abs_of_nonneg (by linarith)
  have distance : |(whole : ℚ) + left - whole| = left := by
    rw [add_sub_cancel_left]
    exact abs_of_nonneg low
  have distance' : |(whole : ℚ) + left - ((whole + 1 : ℤ) : ℚ)| = 1 - left := by
    rw [Int.cast_add, Int.cast_one, abs_sub_comm]
    rw [show (whole : ℚ) + 1 - (whole + left) = 1 - left by ring]
    exact abs_of_nonneg (by linarith)
  cases mode with
  | down =>
      simp only [Rounds, ofSize, above, here]
      exact ⟨by linarith, by linarith, mul_nonneg (by linarith) size⟩
  | floor =>
      simp only [Rounds, ofSize]
      constructor <;> linarith
  | up =>
      by_cases exact_ : left = 0
      · simp only [Rounds, ofSize, if_pos exact_, above, here]
        exact ⟨by linarith, by linarith, mul_nonneg (by linarith) size⟩
      · have some_ : 0 < left := lt_of_le_of_ne low (Ne.symm exact_)
        simp only [Rounds, ofSize, if_neg exact_, above, next]
        refine ⟨by linarith, by linarith, mul_nonneg (by linarith) ?_⟩
        push_cast
        linarith
  | ceil =>
      by_cases exact_ : left = 0
      · simp only [Rounds, ofSize, if_pos exact_]
        constructor <;> linarith
      · have some_ : 0 < left := lt_of_le_of_ne low (Ne.symm exact_)
        simp only [Rounds, ofSize, if_neg exact_]
        push_cast
        constructor <;> linarith
  | halfEven =>
      by_cases more : 1 < 2 * left ∨ 2 * left = 1 ∧ ¬Even whole
      · simp only [Rounds, ofSize, if_pos more, distance']
        have half : 1 ≤ 2 * left := by
          rcases more with more | tie
          · exact le_of_lt more
          · exact le_of_eq tie.1.symm
        refine ⟨by linarith, fun equal => ?_⟩
        rcases more with more | tie
        · linarith
        · exact (Int.not_even_iff_odd.mp tie.2).add_one
      · simp only [Rounds, ofSize, if_neg more, distance]
        obtain ⟨notMore, notTie⟩ := not_or.mp more
        refine ⟨not_lt.mp notMore, fun equal => ?_⟩
        by_contra odd
        exact notTie ⟨equal, odd⟩
  | halfUp =>
      by_cases more : 1 ≤ 2 * left
      · simp only [Rounds, ofSize, if_pos more, distance', above, next]
        exact ⟨by linarith, fun _ => by linarith⟩
      · simp only [Rounds, ofSize, if_neg more, distance]
        exact ⟨by linarith, fun equal => absurd equal.ge more⟩

/-! ### One rounding for each number -/

private theorem same_of_size {x : ℚ} {n m : ℤ} (size : |n| = |m|) (left : 0 ≤ x * n)
    (right : 0 ≤ x * m) (some_ : x ≠ 0) : n = m := by
  rcases abs_eq_abs.mp size with same | opposite
  · exact same
  · have both : x * (n : ℚ) = 0 := by
      have negated : x * (n : ℚ) = -(x * m) := by
        rw [opposite]
        push_cast
        ring
      linarith
    have none_ : (n : ℚ) = 0 := (mul_eq_zero.mp both).resolve_left some_
    have zero : n = 0 := by exact_mod_cast none_
    omega

private theorem le_of_cast {n m : ℤ} (below : (n : ℚ) < m + 1) : n ≤ m := by
  have whole : n < m + 1 := by exact_mod_cast below
  omega

private theorem size_le {n m : ℤ} (below : |(n : ℚ)| < |(m : ℚ)| + 1) : |n| ≤ |m| := by
  apply le_of_cast
  push_cast
  exact below

private theorem next_of_near {x : ℚ} {n m : ℤ} (first : 2 * |x - n| ≤ 1)
    (second : 2 * |x - m| ≤ 1) (less : n < m) : m = n + 1 ∧ x = n + 1 / 2 := by
  have further : (n : ℚ) + 1 ≤ m := by exact_mod_cast less
  have low := (abs_le.mp (by linarith : |x - n| ≤ 1 / 2)).2
  have high := (abs_le.mp (by linarith : |x - m| ≤ 1 / 2)).1
  have next : (m : ℚ) = n + 1 := by linarith
  exact ⟨by exact_mod_cast next, by linarith⟩

private theorem tie_distance {x : ℚ} {n : ℤ} (half : x = n + 1 / 2) :
    2 * |x - n| = 1 ∧ 2 * |x - ((n + 1 : ℤ) : ℚ)| = 1 := by
  constructor
  · rw [half, add_sub_cancel_left]
    norm_num
  · rw [half]
    push_cast
    rw [show (n : ℚ) + 1 / 2 - (n + 1) = -(1 / 2) by ring]
    norm_num

private theorem halfEven_not_less {x : ℚ} {n m : ℤ} (first : halfEven.Rounds x n)
    (second : halfEven.Rounds x m) : ¬n < m := by
  intro less
  obtain ⟨next, half⟩ := next_of_near first.1 second.1 less
  obtain ⟨left, right⟩ := tie_distance half
  subst next
  have even := first.2 left
  have odd := second.2 right
  exact Int.not_even_iff_odd.mpr even.add_one odd

private theorem halfUp_not_less {x : ℚ} {n m : ℤ} (first : halfUp.Rounds x n)
    (second : halfUp.Rounds x m) : ¬n < m := by
  intro less
  obtain ⟨next, half⟩ := next_of_near first.1 second.1 less
  obtain ⟨left, right⟩ := tie_distance half
  subst next
  have below := first.2 left
  have above := second.2 right
  rcases le_or_gt 0 n with positive | negative
  · have size : (0 : ℚ) ≤ n := by exact_mod_cast positive
    rw [half, abs_of_nonneg size, abs_of_nonneg (by linarith)] at below
    linarith
  · have size : (n : ℚ) ≤ -1 := by exact_mod_cast Int.le_sub_one_of_lt negative
    push_cast at above
    rw [half, abs_of_nonpos (by linarith), abs_of_nonpos (by linarith)] at above
    linarith

theorem rounds_unique {mode : Mode} {x : ℚ} {n m : ℤ} (first : mode.Rounds x n)
    (second : mode.Rounds x m) : n = m := by
  cases mode with
  | down =>
      obtain ⟨low, high, sign⟩ := first
      obtain ⟨low', high', sign'⟩ := second
      by_cases zero : x = 0
      · rw [zero, abs_zero] at low low'
        have left : (n : ℚ) = 0 := abs_nonpos_iff.mp low
        have right : (m : ℚ) = 0 := abs_nonpos_iff.mp low'
        exact_mod_cast left.trans right.symm
      · exact same_of_size (le_antisymm (size_le (by linarith)) (size_le (by linarith)))
          sign sign' zero
  | up =>
      obtain ⟨low, high, sign⟩ := first
      obtain ⟨low', high', sign'⟩ := second
      have size : |n| = |m| := le_antisymm (size_le (by linarith)) (size_le (by linarith))
      by_cases zero : x = 0
      · rw [zero, abs_zero, zero_add] at high
        have none_ : |n| < 1 := by exact_mod_cast high
        have left : n = 0 := Int.abs_lt_one_iff.mp none_
        have right : m = 0 := by rw [left, abs_zero] at size; exact abs_eq_zero.mp size.symm
        omega
      · exact same_of_size size sign sign' zero
  | floor =>
      obtain ⟨low, high⟩ := first
      obtain ⟨low', high'⟩ := second
      exact le_antisymm (le_of_cast (by linarith)) (le_of_cast (by linarith))
  | ceil =>
      obtain ⟨low, high⟩ := first
      obtain ⟨low', high'⟩ := second
      exact le_antisymm (le_of_cast (by linarith)) (le_of_cast (by linarith))
  | halfEven =>
      have left := halfEven_not_less first second
      have right := halfEven_not_less second first
      omega
  | halfUp =>
      have left := halfUp_not_less first second
      have right := halfUp_not_less second first
      omega

theorem rounds_iff {mode : Mode} {x : ℚ} {n : ℤ} (rounds : mode.Rounds x n) (m : ℤ) :
    mode.Rounds x m ↔ m = n :=
  ⟨fun other => rounds_unique other rounds, fun same => same ▸ rounds⟩

end Mode

end CScript.Rounding
