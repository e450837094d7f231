/-
Rounding to a number of binary digits.

A number with more digits than that is rounded to the nearest one that has zeros behind
them, and to an even one of two that are as near.  Digits taken in one after the other,
each with a rounding, come to the first ones, rounded by the next one alone.
-/

import Mathlib.Data.Nat.Size
import Mathlib.Tactic.Ring

namespace Foundation.Rounding

def unit (precision n : Nat) : Nat :=
  2 ^ (n.size - precision)

def roundTo (precision n : Nat) : Nat :=
  let quotient := n / unit precision n
  let rest := n % unit precision n
  if unit precision n < 2 * rest ∨ (unit precision n = 2 * rest ∧ quotient % 2 = 1) then
    (quotient + 1) * unit precision n
  else quotient * unit precision n

variable {precision : Nat}

/-! ### Numbers that need no rounding -/

theorem roundTo_of_dvd {n : Nat} (divides : unit precision n ∣ n) : roundTo precision n = n := by
  have zero : n % unit precision n = 0 := Nat.mod_eq_zero_of_dvd divides
  have positive : 0 < unit precision n := Nat.two_pow_pos _
  unfold roundTo
  dsimp only
  rw [zero, if_neg (by omega)]
  exact Nat.div_mul_cancel divides

theorem size_mul_pow {m : Nat} (positive : 0 < m) (k : Nat) : (m * 2 ^ k).size = m.size + k := by
  rw [← Nat.shiftLeft_eq]
  exact Nat.size_shiftLeft (Nat.ne_of_gt positive) k

theorem roundTo_mul_pow {m : Nat} (small : m < 2 ^ precision) (k : Nat) :
    roundTo precision (m * 2 ^ k) = m * 2 ^ k := by
  rcases Nat.eq_zero_or_pos m with rfl | positive
  · rw [Nat.zero_mul]
    exact roundTo_of_dvd (Nat.dvd_zero _)
  · apply roundTo_of_dvd
    have size := Nat.size_le.mpr small
    rw [unit, size_mul_pow positive]
    exact Dvd.dvd.mul_left (Nat.pow_dvd_pow 2 (by omega)) m

theorem roundTo_mul_pow_le (positive : 0 < precision) {m : Nat} (small : m ≤ 2 ^ precision)
    (k : Nat) : roundTo precision (m * 2 ^ k) = m * 2 ^ k := by
  rcases Nat.lt_or_eq_of_le small with below | rfl
  · exact roundTo_mul_pow below k
  · have split : 2 ^ precision * 2 ^ k = 1 * 2 ^ (precision + k) := by rw [pow_add, one_mul]
    rw [split]
    exact roundTo_mul_pow (Nat.one_lt_two_pow (Nat.ne_of_gt positive)) _

theorem roundTo_small {n : Nat} (small : n < 2 ^ precision) : roundTo precision n = n := by
  have whole := roundTo_mul_pow small 0
  rwa [Nat.pow_zero, Nat.mul_one] at whole

/-! ### One more digit -/

theorem size_eq {n j : Nat} (low : 2 ^ j ≤ n) (high : n < 2 ^ (j + 1)) : n.size = j + 1 :=
  Nat.le_antisymm (Nat.size_le.mpr high) (Nat.lt_size.mpr low)

theorem roundTo_half {m : Nat} (low : 2 ^ precision ≤ 2 * m) (high : m < 2 ^ precision) :
    roundTo precision (2 * m + 1) = (m + m % 2) * 2 := by
  have size : (2 * m + 1).size = precision + 1 := size_eq (by omega) (by rw [pow_succ]; omega)
  have half : unit precision (2 * m + 1) = 2 := by
    rw [unit, size, Nat.add_sub_cancel_left, pow_one]
  have rest : (2 * m + 1) % 2 = 1 := by omega
  have quotient : (2 * m + 1) / 2 = m := by omega
  unfold roundTo
  dsimp only
  rw [half, rest, quotient]
  rcases Nat.mod_two_eq_zero_or_one m with even | odd
  · rw [if_neg (by omega), even, Nat.add_zero]
  · rw [if_pos (.inr ⟨rfl, odd⟩), odd]

theorem roundTo_behind {m j : Nat} (low : 2 ^ precision ≤ 2 * m) (high : m < 2 ^ precision) :
    roundTo precision (m * 2 ^ (j + 2) + 1) = m * 2 ^ (j + 2) := by
  have large : 4 ≤ 2 ^ (j + 2) := by
    rw [pow_add]
    exact Nat.le_mul_of_pos_left _ (Nat.two_pow_pos j)
  have below : m * 2 ^ (j + 2) + 2 ^ (j + 2) ≤ 2 ^ precision * 2 ^ (j + 2) := by
    rw [← Nat.succ_mul]
    exact Nat.mul_le_mul_right _ high
  have above : 2 ^ precision * 2 ^ (j + 2) ≤ 2 * (m * 2 ^ (j + 2)) := by
    rw [← mul_assoc]
    exact Nat.mul_le_mul_right _ low
  have size : (m * 2 ^ (j + 2) + 1).size = precision + (j + 2) := by
    obtain ⟨places, is⟩ : ∃ places, precision + (j + 2) = places + 1 := ⟨_, rfl⟩
    have whole : 2 ^ (places + 1) = 2 ^ precision * 2 ^ (j + 2) := by rw [← is, pow_add]
    have half : 2 ^ (places + 1) = 2 * 2 ^ places := by ring
    rw [is]
    exact size_eq (by omega) (by omega)
  have steps : unit precision (m * 2 ^ (j + 2) + 1) = 2 ^ (j + 2) := by
    rw [unit, size, Nat.add_sub_cancel_left]
  have rest : (m * 2 ^ (j + 2) + 1) % 2 ^ (j + 2) = 1 := by
    rw [Nat.mul_comm, Nat.mul_add_mod, Nat.mod_eq_of_lt (by omega)]
  have quotient : (m * 2 ^ (j + 2) + 1) / 2 ^ (j + 2) = m := by
    rw [Nat.mul_comm, Nat.mul_add_div (by omega), Nat.div_eq_of_lt (by omega), Nat.add_zero]
  unfold roundTo
  dsimp only
  rw [steps, rest, quotient, if_neg (by omega)]

theorem roundTo_behind_le (positive : 0 < precision) {m j : Nat} (low : 2 ^ precision ≤ 2 * m)
    (high : m ≤ 2 ^ precision) : roundTo precision (m * 2 ^ (j + 2) + 1) = m * 2 ^ (j + 2) := by
  rcases Nat.lt_or_eq_of_le high with below | rfl
  · exact roundTo_behind low below
  · obtain ⟨fewer, rfl⟩ : ∃ fewer, precision = fewer + 1 := ⟨precision - 1, by omega⟩
    have split : 2 ^ (fewer + 1) * 2 ^ (j + 2) = 2 ^ fewer * 2 ^ ((j + 1) + 2) := by ring
    have power := Nat.two_pow_pos fewer
    rw [split]
    exact roundTo_behind (by rw [pow_succ]; omega) (by rw [pow_succ]; omega)

/-! ### Digits taken in one after the other -/

def kept (precision value : Nat) : Nat :=
  value / 2 ^ (value.size - precision) +
    if value / 2 ^ (value.size - precision - 1) % 2 = 1 ∧
        value / 2 ^ (value.size - precision) % 2 = 1 then 1 else 0

def taken (precision value : Nat) : Nat :=
  if value < 2 ^ precision then value else kept precision value * 2 ^ (value.size - precision)

theorem taken_small {value : Nat} (small : value < 2 ^ precision) : taken precision value = value :=
  if_pos small

theorem taken_large {value : Nat} (large : ¬value < 2 ^ precision) :
    taken precision value = kept precision value * 2 ^ (value.size - precision) :=
  if_neg large

theorem first_digits (positive : 0 < precision) {value : Nat} (large : 2 ^ precision ≤ value) :
    2 ^ precision ≤ 2 * (value / 2 ^ (value.size - precision)) ∧
      value / 2 ^ (value.size - precision) < 2 ^ precision := by
  have long : precision < value.size := Nat.lt_size.mpr large
  obtain ⟨fewer, rfl⟩ : ∃ fewer, precision = fewer + 1 := ⟨precision - 1, by omega⟩
  obtain ⟨more, is⟩ : ∃ more, value.size = fewer + 1 + (more + 1) :=
    ⟨value.size - (fewer + 1) - 1, by omega⟩
  have low : 2 ^ (fewer + (more + 1)) ≤ value := Nat.lt_size.mp (by omega)
  have high : value < 2 ^ (fewer + 1 + (more + 1)) := Nat.size_le.mp (Nat.le_of_eq is)
  rw [is, Nat.add_sub_cancel_left]
  rw [pow_add] at low high
  constructor
  · have first := (Nat.le_div_iff_mul_le (Nat.two_pow_pos (more + 1))).mpr low
    rw [pow_succ 2 fewer]
    omega
  · exact Nat.div_lt_of_lt_mul (by rwa [Nat.mul_comm])

theorem kept_bounds (positive : 0 < precision) {value : Nat} (large : 2 ^ precision ≤ value) :
    2 ^ precision ≤ 2 * kept precision value ∧ kept precision value ≤ 2 ^ precision := by
  have first := first_digits positive large
  unfold kept
  split <;> omega

theorem kept_longer {value digit : Nat} (large : 2 ^ precision ≤ value) (bit : digit < 2) :
    (2 * value + digit).size = value.size + 1 ∧
      kept precision (2 * value + digit) = kept precision value := by
  have long : precision < value.size := Nat.lt_size.mpr large
  obtain ⟨more, is⟩ : ∃ more, value.size = precision + (more + 1) :=
    ⟨value.size - precision - 1, by omega⟩
  have low : 2 ^ (precision + more) ≤ value := Nat.lt_size.mp (by omega)
  have high : value < 2 ^ (precision + more + 1) := Nat.size_le.mp (by omega)
  have size : (2 * value + digit).size = value.size + 1 := by
    rw [is, ← Nat.add_assoc]
    exact size_eq (by rw [pow_succ]; omega) (by rw [pow_succ]; omega)
  have half : (2 * value + digit) / 2 = value := by omega
  have first : (2 * value + digit) / 2 ^ (more + 2) = value / 2 ^ (more + 1) := by
    rw [pow_succ' 2 (more + 1), ← Nat.div_div_eq_div_mul, half]
  have next : (2 * value + digit) / 2 ^ (more + 1) = value / 2 ^ more := by
    rw [pow_succ' 2 more, ← Nat.div_div_eq_div_mul, half]
  refine ⟨size, ?_⟩
  unfold kept
  rw [size, is, show precision + (more + 1) + 1 - precision = more + 2 by omega,
    show precision + (more + 1) - precision = more + 1 by omega, first,
    show more + 2 - 1 = more + 1 from rfl, next, show more + 1 - 1 = more from rfl]

theorem taken_longer {value digit : Nat} (large : 2 ^ precision ≤ value) (bit : digit < 2) :
    taken precision (2 * value + digit) = 2 * taken precision value := by
  have long : precision < value.size := Nat.lt_size.mpr large
  obtain ⟨size, same⟩ := kept_longer large bit
  rw [taken_large (by omega), taken_large (by omega), same, size,
    show value.size + 1 - precision = value.size - precision + 1 by omega, pow_succ]
  ring

theorem roundTo_taken (positive : 0 < precision) (value : Nat) {digit : Nat} (bit : digit < 2) :
    roundTo precision (2 * taken precision value + digit) =
      taken precision (2 * value + digit) := by
  by_cases large : 2 ^ precision ≤ value
  · have long : precision < value.size := Nat.lt_size.mpr large
    obtain ⟨more, is⟩ : ∃ more, value.size - precision = more + 1 :=
      ⟨value.size - precision - 1, by omega⟩
    have bounds := kept_bounds positive large
    have twice : 2 * taken precision value = kept precision value * 2 ^ (more + 2) := by
      rw [taken_large (by omega), is]
      ring
    rw [taken_longer large bit, twice]
    rcases Nat.lt_succ_iff_lt_or_eq.mp bit with zero | rfl
    · rw [Nat.lt_one_iff.mp zero, Nat.add_zero]
      exact roundTo_mul_pow_le positive bounds.2 _
    · exact roundTo_behind_le positive bounds.1 bounds.2
  · obtain ⟨fewer, is⟩ : ∃ fewer, precision = fewer + 1 := ⟨precision - 1, by omega⟩
    have even : 2 ^ precision = 2 * 2 ^ fewer := by rw [is, pow_succ]; ring
    rw [taken_small (by omega)]
    by_cases small : 2 * value + digit < 2 ^ precision
    · rw [taken_small small, roundTo_small small]
    · have size : (2 * value + digit).size = precision + 1 :=
        size_eq (by omega) (by rw [pow_succ]; omega)
      have quotient : (2 * value + digit) / 2 = value := by omega
      rw [taken_large small, kept, size, Nat.add_sub_cancel_left, pow_one, Nat.sub_self, pow_zero,
        Nat.div_one, quotient]
      rcases Nat.lt_succ_iff_lt_or_eq.mp bit with zero | rfl
      · have whole := @roundTo_mul_pow precision value (by omega) 1
        rw [pow_one, Nat.mul_comm] at whole
        rw [Nat.lt_one_iff.mp zero, Nat.add_zero, Nat.mul_mod_right, if_neg (by omega),
          Nat.add_zero, whole, Nat.mul_comm]
      · rw [roundTo_half (by omega) (by omega), show (2 * value + 1) % 2 = 1 by omega]
        congr 2
        rcases Nat.mod_two_eq_zero_or_one value with even | odd
        · rw [even, if_neg (by omega)]
        · rw [odd, if_pos ⟨rfl, rfl⟩]

theorem roundTo_double (positive : 0 < precision) (value : Nat) :
    roundTo precision (2 * taken precision value) = 2 * taken precision value := by
  by_cases large : 2 ^ precision ≤ value
  · have step := @roundTo_taken precision positive value 0 (by decide)
    rwa [taken_longer large (by decide), Nat.add_zero] at step
  · have whole := @roundTo_mul_pow precision value (by omega) 1
    rwa [pow_one, Nat.mul_comm, ← taken_small (Nat.lt_of_not_le large)] at whole

/-! ### How large it gets, and what is left of its last digits -/

theorem size_sub {value : Nat} (large : 2 ^ precision ≤ value) :
    ∃ more, value.size = precision + (more + 1) ∧ 2 ^ (precision + more) ≤ value ∧
      value < 2 ^ (precision + more + 1) := by
  have long : precision < value.size := Nat.lt_size.mpr large
  refine ⟨value.size - precision - 1, by omega, Nat.lt_size.mp (by omega), Nat.size_le.mp ?_⟩
  omega

theorem kept_lt_iff (positive : 0 < precision) {value more : Nat}
    (size : value.size = precision + (more + 1)) :
    kept precision value < 2 ^ precision ↔
      value < 2 ^ (precision + more + 1) - 2 ^ more := by
  have large : 2 ^ precision ≤ value := Nat.lt_size.mp (by omega)
  have bound := (first_digits positive large).2
  obtain ⟨fewer, rfl⟩ : ∃ fewer, precision = fewer + 1 := ⟨precision - 1, by omega⟩
  have next : value / 2 ^ (more + 1) = value / 2 ^ more / 2 := by
    rw [pow_succ, Nat.div_div_eq_div_mul]
  have limit : 2 ^ (fewer + 1 + more + 1) - 2 ^ more = (2 ^ (fewer + 1 + 1) - 1) * 2 ^ more := by
    rw [Nat.sub_mul, one_mul, ← pow_add]
    congr 2
    omega
  have even : 2 ^ (fewer + 1) = 2 * 2 ^ fewer := by ring
  have longer : 2 ^ (fewer + 1 + 1) = 2 * (2 * 2 ^ fewer) := by ring
  rw [limit, ← Nat.div_lt_iff_lt_mul (Nat.two_pow_pos more), longer]
  unfold kept
  rw [size, show fewer + 1 + (more + 1) - (fewer + 1) = more + 1 by omega, next,
    show more + 1 - 1 = more from rfl]
  rw [size, show fewer + 1 + (more + 1) - (fewer + 1) = more + 1 by omega, next, even] at bound
  rw [even]
  generalize value / 2 ^ more = digits at bound ⊢
  generalize 2 ^ fewer = half at bound ⊢
  split <;> omega

theorem taken_lt_iff (positive : 0 < precision) (value more : Nat) :
    taken precision value < 2 ^ (precision + more + 1) ↔
      value < 2 ^ (precision + more + 1) - 2 ^ more := by
  have power := Nat.two_pow_pos more
  have above : 2 ^ more ≤ 2 ^ (precision + more) := Nat.pow_le_pow_right (by decide) (by omega)
  have double : 2 ^ (precision + more + 1) = 2 * 2 ^ (precision + more) := by ring
  by_cases large : 2 ^ precision ≤ value
  · obtain ⟨places, size, low, high⟩ := size_sub large
    have bounds := kept_bounds positive large
    rw [taken_large (by omega), size, Nat.add_sub_cancel_left]
    have upper : kept precision value * 2 ^ (places + 1) ≤ 2 ^ (precision + places + 1) := by
      rw [Nat.add_assoc, pow_add 2 precision (places + 1)]
      exact Nat.mul_le_mul_right _ bounds.2
    have lower : 2 ^ (precision + places) ≤ kept precision value * 2 ^ (places + 1) := by
      have scaled := Nat.mul_le_mul_right (2 ^ places) bounds.1
      rw [← pow_add] at scaled
      rw [pow_succ]
      calc 2 ^ (precision + places) ≤ 2 * kept precision value * 2 ^ places := scaled
        _ = kept precision value * (2 ^ places * 2) := by ring
    rcases Nat.lt_trichotomy places more with fewer | rfl | further
    · have within : 2 ^ (precision + places + 1) ≤ 2 ^ (precision + more) :=
        Nat.pow_le_pow_right (by decide) (by omega)
      exact iff_of_true (by omega) (by omega)
    · rw [← kept_lt_iff positive size, Nat.add_assoc, pow_add 2 precision (places + 1),
        Nat.mul_lt_mul_right (Nat.two_pow_pos _)]
    · have within : 2 ^ (precision + more + 1) ≤ 2 ^ (precision + places) :=
        Nat.pow_le_pow_right (by decide) (by omega)
      exact iff_of_false (by omega) (by omega)
  · have within : 2 ^ precision ≤ 2 ^ (precision + more) :=
      Nat.pow_le_pow_right (by decide) (by omega)
    rw [taken_small (by omega)]
    exact iff_of_true (by omega) (by omega)

theorem taken_mod_iff {value : Nat} (large : 2 ^ precision ≤ value) (width : Nat) :
    taken precision value % 2 ^ width = value % 2 ^ width ↔
      2 ^ min (value.size - precision) width ∣ value := by
  obtain ⟨places, size, low, high⟩ := size_sub large
  have steps : value.size - precision = places + 1 := by omega
  have shared : 2 ^ min (places + 1) width ∣ 2 ^ (places + 1) :=
    Nat.pow_dvd_pow 2 (Nat.min_le_left _ _)
  have modulus : 2 ^ min (places + 1) width ∣ 2 ^ width :=
    Nat.pow_dvd_pow 2 (Nat.min_le_right _ _)
  rw [taken_large (by omega), steps]
  constructor
  · intro same
    have zero : value % 2 ^ min (places + 1) width = 0 := by
      rw [← Nat.mod_mod_of_dvd value modulus, ← same, Nat.mod_mod_of_dvd _ modulus]
      exact Nat.mod_eq_zero_of_dvd (shared.mul_left _)
    exact Nat.dvd_of_mod_eq_zero zero
  · intro divides
    rcases Nat.le_total (places + 1) width with narrow | wide
    · rw [Nat.min_eq_left narrow] at divides
      obtain ⟨first, rfl⟩ := divides
      have even : 2 ^ (places + 1) * first / 2 ^ places % 2 = 0 := by
        rw [pow_succ, Nat.mul_assoc, Nat.mul_div_cancel_left _ (Nat.two_pow_pos _),
          Nat.mul_mod_right]
      unfold kept
      rw [steps, show places + 1 - 1 = places from rfl, even, if_neg (by omega), Nat.add_zero,
        Nat.mul_div_cancel_left _ (Nat.two_pow_pos _), Nat.mul_comm]
    · rw [Nat.min_eq_right wide] at divides
      rw [Nat.mod_eq_zero_of_dvd divides]
      exact Nat.mod_eq_zero_of_dvd (Dvd.dvd.mul_left (Nat.pow_dvd_pow 2 wide) _)

end Foundation.Rounding
