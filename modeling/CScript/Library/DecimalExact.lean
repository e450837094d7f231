/-
Decimal arithmetic is exact or throws.

A Decimal is read as its units over the power of ten of its scale.  Each operation
has one lemma that says what it answers and at which scale; the laws follow, since
a Decimal is determined by its value and its scale.
-/

import CScript.Library.Decimal

namespace CScript

namespace Decimal

open Rounding (Mode)

def value (decimal : Decimal) : ℚ :=
  decimal.units / 10 ^ decimal.scale

theorem bind_ok {α β : Type} {first : Thrown α} {next : α → Thrown β} {answer : β}
    (ran : first >>= next = .ok answer) : ∃ value, first = .ok value ∧ next value = .ok answer := by
  cases first with
  | error thrown => cases ran
  | ok value => exact ⟨value, rfl, ran⟩

theorem ten_pow_ne (scale : ℕ) : (10 : ℚ) ^ scale ≠ 0 :=
  pow_ne_zero scale (by norm_num)

@[simp] theorem value_mul (decimal : Decimal) :
    decimal.value * 10 ^ decimal.scale = decimal.units :=
  div_mul_cancel₀ _ (ten_pow_ne _)

theorem eq_of_value {left right : Decimal} (scale : left.scale = right.scale)
    (value : left.value = right.value) : left = right := by
  have units : (left.units : ℚ) = right.units := by
    rw [← left.value_mul, ← right.value_mul, value, scale]
  have same : left.units = right.units := by exact_mod_cast units
  cases left
  cases right
  simp_all

/-! ### The parts -/

section

variable {units : ℚ} {scale : ℤ} {decimal : Decimal}

theorem new_ok (made : new units scale = .ok decimal) :
    (decimal.units : ℚ) = units ∧ (decimal.scale : ℤ) = scale := by
  unfold new at made
  split at made
  · cases made
  · rename_i whole
    obtain ⟨floor, positive⟩ := not_or.mp whole
    split at made
    · cases made
      exact ⟨(not_not.mp floor).symm, Int.toNat_of_nonneg (not_lt.mp positive)⟩
    · cases made

theorem new_of (n : ℤ) (scale : ℕ) (safe : |n| ≤ SAFE) :
    new n scale = .ok { units := n, scale := scale, safe := safe } := by
  unfold new
  rw [if_neg (by simp), dif_pos (by simpa using safe)]
  simp

theorem guard_passes (safe : |units| ≤ SAFE) : guard units = .ok () := by
  obtain ⟨low, high⟩ := abs_le.mp safe
  exact if_neg (not_or.mpr ⟨not_lt.mpr high, not_lt.mpr low⟩)

theorem guard_ok {answer : Unit} (passed : guard units = .ok answer) : |units| ≤ SAFE := by
  unfold guard at passed
  split at passed
  · cases passed
  · rename_i within
    obtain ⟨high, low⟩ := not_or.mp within
    exact abs_le.mpr ⟨not_lt.mp low, not_lt.mp high⟩

end

theorem value_of {units value : ℚ} {scale : ℕ} {decimal : Decimal}
    (made : new units scale = .ok decimal) (exact_ : units = value * 10 ^ scale) :
    decimal.value = value ∧ decimal.scale = scale := by
  obtain ⟨same, at_⟩ := new_ok made
  have place : decimal.scale = scale := by exact_mod_cast at_
  refine ⟨?_, place⟩
  unfold Decimal.value
  rw [same, exact_, place]
  exact mul_div_cancel_right₀ _ (ten_pow_ne _)

theorem units_at (decimal : Decimal) (scale : ℤ) :
    decimal.units * pow (scale - decimal.scale) = decimal.value * 10 ^ scale := by
  unfold pow value
  rw [zpow_sub₀ (by norm_num), zpow_natCast]
  field_simp

theorem align_ok {left right : Decimal} {leftUnits rightUnits : ℚ} {scale : ℕ}
    (aligned : align left (.decimal right) = .ok (leftUnits, rightUnits, scale)) :
    scale = max left.scale right.scale ∧ leftUnits = left.value * 10 ^ scale ∧
      rightUnits = right.value * 10 ^ scale := by
  unfold align at aligned
  obtain ⟨other, same, aligned⟩ := bind_ok aligned
  cases same
  obtain ⟨_, _, aligned⟩ := bind_ok aligned
  obtain ⟨_, _, aligned⟩ := bind_ok aligned
  cases aligned
  have wider : (if right.scale < left.scale then left.scale else right.scale) =
      max left.scale right.scale := by
    split <;> omega
  refine ⟨wider, ?_, ?_⟩
  · rw [units_at left, zpow_natCast]
  · rw [units_at right, zpow_natCast]

/-! ### Sums, products, scales -/

section

variable {left right answer : Decimal}

theorem add_ok (ran : left.add (.decimal right) = .ok answer) :
    answer.value = left.value + right.value ∧ answer.scale = max left.scale right.scale := by
  unfold add at ran
  obtain ⟨⟨leftUnits, rightUnits, scale⟩, aligned, made⟩ := bind_ok ran
  obtain ⟨wider, leftExact, rightExact⟩ := align_ok aligned
  rw [← wider]
  exact value_of made (by rw [leftExact, rightExact, add_mul])

theorem subtract_ok (ran : left.subtract (.decimal right) = .ok answer) :
    answer.value = left.value - right.value ∧ answer.scale = max left.scale right.scale := by
  unfold subtract at ran
  obtain ⟨⟨leftUnits, rightUnits, scale⟩, aligned, made⟩ := bind_ok ran
  obtain ⟨wider, leftExact, rightExact⟩ := align_ok aligned
  rw [← wider]
  exact value_of made (by rw [leftExact, rightExact, sub_mul])

theorem multiply_ok (ran : left.multiply (.decimal right) = .ok answer) :
    answer.value = left.value * right.value ∧ answer.scale = left.scale + right.scale := by
  unfold multiply at ran
  obtain ⟨other, same, ran⟩ := bind_ok ran
  cases same
  obtain ⟨_, _, made⟩ := bind_ok ran
  have exact_ : (left.units : ℚ) * right.units =
      left.value * right.value * 10 ^ (left.scale + right.scale) := by
    rw [← left.value_mul, ← right.value_mul, pow_add]
    ring
  exact value_of (by exact_mod_cast made) exact_

theorem negate_ok (ran : left.negate = .ok answer) :
    answer.value = -left.value ∧ answer.scale = left.scale := by
  apply value_of ran
  rw [neg_mul, left.value_mul]

theorem rescale_ok {scale : ℤ} (ran : left.rescale scale = .ok answer) :
    answer.value = left.value ∧ (answer.scale : ℤ) = scale := by
  unfold rescale at ran
  split at ran
  · cases ran
  · obtain ⟨_, _, made⟩ := bind_ok ran
    have place := (new_ok made).2
    rw [← place] at made
    have exact_ := units_at left answer.scale
    rw [zpow_natCast] at exact_
    exact ⟨(value_of made exact_).1, place⟩

theorem compare_ok {order : ℤ} (ran : left.compare (.decimal right) = .ok order) :
    order = if left.value < right.value then -1 else if right.value < left.value then 1 else 0 := by
  unfold compare at ran
  obtain ⟨⟨leftUnits, rightUnits, scale⟩, aligned, made⟩ := bind_ok ran
  obtain ⟨_, leftExact, rightExact⟩ := align_ok aligned
  have positive : (0 : ℚ) < 10 ^ scale := pow_pos (by norm_num) scale
  cases made
  simp only [leftExact, rightExact, mul_lt_mul_iff_left₀ positive]

end

/-! ### Rounding -/

/-- The name the source has for a mode. -/
def modeName : Mode → String
  | .down => "down"
  | .up => "up"
  | .floor => "floor"
  | .ceil => "ceil"
  | .halfEven => "half-even"
  | .halfUp => "half-up"

private theorem remainder_eq (size : ℚ) {divisor : ℚ} (positive : 0 < divisor) :
    size - ⌊size / divisor⌋ * divisor = Int.fract (size / divisor) * divisor := by
  unfold Int.fract
  rw [sub_mul, div_mul_cancel₀ _ positive.ne']

theorem roundUnits_eq (units : ℚ) {divisor : ℚ} (positive : 0 < divisor) (mode : Mode) :
    roundUnits units divisor (modeName mode) = .ok
      (if units < 0 then
        -(mode.mirror.ofSize ⌊-units / divisor⌋ (Int.fract (-units / divisor)))
      else mode.ofSize ⌊units / divisor⌋ (Int.fract (units / divisor))) := by
  have nothing : ∀ left : ℚ, left * divisor = 0 ↔ left = 0 :=
    fun left => mul_eq_zero_iff_right positive.ne'
  have more : ∀ left : ℚ, divisor < left * divisor * 2 ↔ 1 < 2 * left := by
    intro left
    rw [show left * divisor * 2 = 2 * left * divisor by ring]
    exact lt_mul_iff_one_lt_left positive
  have half : ∀ left : ℚ, left * divisor * 2 = divisor ↔ 2 * left = 1 := by
    intro left
    rw [show left * divisor * 2 = 2 * left * divisor by ring]
    exact mul_eq_right₀ positive.ne'
  have atLeast : ∀ left : ℚ, divisor ≤ left * divisor * 2 ↔ 1 ≤ 2 * left := by
    intro left
    rw [show left * divisor * 2 = 2 * left * divisor by ring]
    exact le_mul_iff_one_le_left positive
  have even : ∀ whole : ℤ, whole % 2 = 0 ↔ Even whole := fun whole => Int.even_iff.symm
  have evenTie : ∀ (whole : ℤ) (left : ℚ),
      (if 1 < 2 * left then whole + 1
        else if 2 * left = 1 then if Even whole then whole else whole + 1
        else whole) = Mode.halfEven.ofSize whole left := by
    intro whole left
    have same : Mode.halfEven.ofSize whole left =
        if 1 < 2 * left ∨ 2 * left = 1 ∧ ¬Even whole then whole + 1 else whole := rfl
    rw [same]
    by_cases above : 1 < 2 * left
    · rw [if_pos above, if_pos (.inl above)]
    rw [if_neg above]
    by_cases tie : 2 * left = 1
    · rw [if_pos tie]
      by_cases whole_ : Even whole
      · rw [if_pos whole_, if_neg (not_or.mpr ⟨above, fun odd => odd.2 whole_⟩)]
      · rw [if_neg whole_, if_pos (.inr ⟨tie, whole_⟩)]
    · rw [if_neg tie, if_neg (not_or.mpr ⟨above, fun both => tie both.1⟩)]
  unfold roundUnits
  by_cases negative : units < 0
  · simp only [remainder_eq _ positive, ne_eq, nothing, more, half, atLeast, even,
      negative, true_and, true_or, if_true, ite_not, evenTie]
    cases mode <;> rfl
  · simp only [remainder_eq _ positive, ne_eq, nothing, more, half, atLeast, even,
      negative, false_and, false_or, if_false, evenTie]
    cases mode <;> rfl

theorem roundUnits_rounds (units : ℚ) {divisor : ℚ} (positive : 0 < divisor) (mode : Mode) :
    ∃ rounded, roundUnits units divisor (modeName mode) = .ok rounded ∧
      mode.Rounds (units / divisor) rounded := by
  refine ⟨_, roundUnits_eq units positive mode, ?_⟩
  have rounds : ∀ (mode : Mode) (size : ℚ), 0 ≤ size →
      mode.Rounds size (mode.ofSize ⌊size⌋ (Int.fract size)) := by
    intro mode size above
    have whole := Mode.ofSize_rounds mode (Int.floor_nonneg.mpr above) (Int.fract_nonneg size)
      (Int.fract_lt_one size)
    rwa [Int.floor_add_fract] at whole
  split
  · rename_i negative
    have mirrored := rounds mode.mirror (-units / divisor)
      (div_nonneg (by linarith) positive.le)
    have turned := Mode.rounds_neg mirrored
    have same : -(-units / divisor) = units / divisor := by ring
    rwa [same] at turned
  · rename_i above
    exact rounds mode (units / divisor) (div_nonneg (not_lt.mp above) positive.le)

section

variable {left right answer : Decimal} {mode : Mode}

theorem round_ok {scale : ℤ} (ran : left.round scale (modeName mode) = .ok answer) :
    (answer.scale : ℤ) = scale ∧ mode.Rounds (left.value * 10 ^ scale) answer.units := by
  unfold round at ran
  split at ran
  · obtain ⟨value, place⟩ := rescale_ok ran
    refine ⟨place, ?_⟩
    rw [← value, ← place, zpow_natCast, value_mul]
    exact mode.rounds_whole answer.units
  · have positive : 0 < pow (left.scale - scale) := zpow_pos (by norm_num) _
    obtain ⟨rounded, same, rounds⟩ := roundUnits_rounds left.units positive mode
    rw [same] at ran
    obtain ⟨units, place⟩ := new_ok ran
    refine ⟨place, ?_⟩
    have value : (left.units : ℚ) / pow (left.scale - scale) = left.value * 10 ^ scale := by
      rw [← units_at, div_eq_mul_inv]
      unfold pow
      rw [← zpow_neg, neg_sub]
    have whole : answer.units = rounded := by exact_mod_cast units
    rw [whole, ← value]
    exact rounds

theorem divide_ok {scale : Option ℤ}
    (ran : left.divide (.decimal right) scale (modeName mode) = .ok answer) :
    right.units ≠ 0 ∧ (answer.scale : ℤ) = scale.getD left.scale ∧
      mode.Rounds (left.value / right.value * 10 ^ (scale.getD left.scale)) answer.units := by
  unfold divide at ran
  obtain ⟨other, same, ran⟩ := bind_ok ran
  cases same
  split at ran
  · cases ran
  · rename_i some_
    obtain ⟨_, _, ran⟩ := bind_ok ran
    obtain ⟨rounded, roundedRan, made⟩ := bind_ok ran
    obtain ⟨n, same, rounds⟩ := roundUnits_rounds (left.units *
      pow (scale.getD left.scale - left.scale + right.scale + 2) / right.units)
      (by norm_num : (0 : ℚ) < 100) mode
    obtain rfl : n = rounded := Except.ok.inj (same.symm.trans roundedRan)
    obtain ⟨units, place⟩ := new_ok made
    refine ⟨some_, place, ?_⟩
    have nonzero : (right.units : ℚ) ≠ 0 := by exact_mod_cast some_
    have quotient : (left.units : ℚ) *
        pow (scale.getD left.scale - left.scale + right.scale + 2) / right.units / 100 =
        left.value / right.value * 10 ^ (scale.getD left.scale) := by
      unfold pow value
      rw [zpow_add₀ (by norm_num), zpow_add₀ (by norm_num), zpow_sub₀ (by norm_num),
        zpow_natCast, zpow_natCast]
      field_simp
      norm_num
    have whole : answer.units = n := by exact_mod_cast units
    rw [whole, ← quotient]
    exact rounds

/-! ### When they answer -/

theorem safe_of_rounds {x : ℚ} {n : ℤ} (rounds : mode.Rounds x n) (small : |x| ≤ SAFE / 10) :
    |n| ≤ SAFE := by
  have size := Mode.rounds_size rounds
  have whole : (|n| : ℚ) ≤ SAFE := by
    unfold SAFE at small ⊢
    norm_num at small ⊢
    linarith
  exact_mod_cast whole

theorem units_safe (decimal : Decimal) : |(decimal.units : ℚ)| ≤ SAFE := by
  have safe := decimal.safe
  exact_mod_cast safe

theorem round_answers {scale : ℕ} (fewer : scale < left.scale) (mode : Mode) :
    ∃ answer, left.round scale (modeName mode) = .ok answer := by
  have positive : 0 < pow (left.scale - scale) := zpow_pos (by norm_num) _
  obtain ⟨rounded, same, rounds⟩ := roundUnits_rounds left.units positive mode
  have ten : (10 : ℚ) ≤ pow (left.scale - scale) := by
    have digits : ((left.scale : ℤ) - scale) = ((left.scale - scale - 1 : ℕ) : ℤ) + 1 := by omega
    unfold pow
    rw [digits, zpow_add_one₀ (by norm_num), zpow_natCast]
    have one : (1 : ℚ) ≤ 10 ^ (left.scale - scale - 1) := one_le_pow₀ (by norm_num)
    linarith
  have small : |(left.units : ℚ) / pow (left.scale - scale)| ≤ SAFE / 10 := by
    rw [abs_div, abs_of_pos positive]
    exact div_le_div₀ (by norm_num [SAFE]) left.units_safe (by norm_num) ten
  have safe := safe_of_rounds rounds small
  refine ⟨{ units := rounded, scale := scale, safe := safe }, ?_⟩
  unfold round
  rw [if_neg (by omega), same]
  exact new_of rounded scale safe

theorem rescale_answers {scale : ℕ} (wider : left.scale ≤ scale)
    (safe : |left.value * 10 ^ scale| ≤ SAFE) : ∃ answer, left.rescale scale = .ok answer := by
  have units := units_at left scale
  rw [zpow_natCast] at units
  have whole : left.value * 10 ^ scale = ((left.units * 10 ^ (scale - left.scale) : ℤ) : ℚ) := by
    rw [← units]
    unfold pow
    push_cast
    congr 1
    rw [← zpow_natCast, Nat.cast_sub wider]
  have small : |left.units * 10 ^ (scale - left.scale)| ≤ SAFE := by
    rw [whole] at safe
    exact_mod_cast safe
  refine ⟨{ units := left.units * 10 ^ (scale - left.scale), scale := scale, safe := small }, ?_⟩
  unfold rescale
  rw [if_neg (by omega)]
  simp only [units]
  rw [guard_passes safe, whole]
  exact new_of _ scale small

theorem divide_answers {places : ℕ} (some_ : right.units ≠ 0)
    (safe : |left.units * pow (places - left.scale + right.scale + 2)| ≤ SAFE) (mode : Mode) :
    ∃ answer, left.divide (.decimal right) (some (places : ℤ)) (modeName mode) = .ok answer := by
  obtain ⟨rounded, same, rounds⟩ := roundUnits_rounds (left.units *
    pow (places - left.scale + right.scale + 2) / right.units) (by norm_num : (0 : ℚ) < 100) mode
  have one : (1 : ℚ) ≤ |(right.units : ℚ)| := by
    have whole := Int.one_le_abs some_
    exact_mod_cast whole
  have small : |left.units * pow (places - left.scale + right.scale + 2) / right.units / 100| ≤
      (SAFE : ℚ) / 10 := by
    rw [abs_div, abs_div]
    have quotient := div_le_self (abs_nonneg (left.units *
      pow (places - left.scale + right.scale + 2))) one
    have hundred : |(100 : ℚ)| = 100 := by norm_num
    have positive : (0 : ℚ) ≤ SAFE := by norm_num [SAFE]
    rw [hundred]
    linarith
  have within := safe_of_rounds rounds small
  refine ⟨{ units := rounded, scale := places, safe := within }, ?_⟩
  unfold divide
  simp only [asDecimal, bind, Except.bind, if_neg some_, Option.getD_some]
  rw [guard_passes safe, same]
  exact new_of rounded places within

end

end Decimal

end CScript
