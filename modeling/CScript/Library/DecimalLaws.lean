/-
What std:decimal promises, as one statement.

Every law is about what the class answers: where a side throws it says nothing.
-/

import CScript.Library.DecimalText

namespace CScript

namespace Decimal

open Rounding (Mode)

structure IsExact : Prop where
  add : ∀ {left right answer : Decimal}, left.add (.decimal right) = .ok answer →
    answer.value = left.value + right.value
  subtract : ∀ {left right answer : Decimal}, left.subtract (.decimal right) = .ok answer →
    answer.value = left.value - right.value
  multiply : ∀ {left right answer : Decimal}, left.multiply (.decimal right) = .ok answer →
    answer.value = left.value * right.value
  negate : ∀ {decimal answer : Decimal}, decimal.negate = .ok answer →
    answer.value = -decimal.value
  rescale : ∀ {decimal answer : Decimal} {scale : ℤ}, decimal.rescale scale = .ok answer →
    answer.value = decimal.value ∧ (answer.scale : ℤ) = scale
  compare : ∀ {left right : Decimal} {order : ℤ}, left.compare (.decimal right) = .ok order →
    order = if left.value < right.value then -1 else if right.value < left.value then 1 else 0
  parse : ∀ decimal : Decimal, parse decimal.toString = .ok decimal
  round : ∀ {decimal answer : Decimal} {scale : ℤ} {mode : Mode},
    decimal.round scale (modeName mode) = .ok answer →
      (answer.scale : ℤ) = scale ∧
        ∀ n, mode.Rounds (decimal.value * 10 ^ scale) n ↔ n = answer.units
  roundAnswers : ∀ (decimal : Decimal) (scale : ℕ) (mode : Mode),
    (∃ answer, decimal.round scale (modeName mode) = .ok answer) ∨
      decimal.scale ≤ scale ∧ (SAFE : ℚ) < |decimal.value * 10 ^ scale|
  divide : ∀ {left right answer : Decimal} {scale : Option ℤ} {mode : Mode},
    left.divide (.decimal right) scale (modeName mode) = .ok answer →
      right.units ≠ 0 ∧ (answer.scale : ℤ) = scale.getD left.scale ∧
        ∀ n, mode.Rounds (left.value / right.value * 10 ^ (scale.getD left.scale)) n ↔
          n = answer.units
  divideAnswers : ∀ (left right : Decimal) (places : ℕ) (mode : Mode), right.units ≠ 0 →
    (∃ answer, left.divide (.decimal right) (some (places : ℤ)) (modeName mode) = .ok answer) ∨
      (SAFE : ℚ) < |left.units * pow (places - left.scale + right.scale + 2)|
  compareAnswers : ∀ decimal : Decimal, decimal.compare (.decimal decimal) = .ok 0
  compareSymm : ∀ {left right : Decimal} {order : ℤ},
    left.compare (.decimal right) = .ok order → right.compare (.decimal left) = .ok (-order)
  compareTrans : ∀ {first second third : Decimal} {left right whole : ℤ},
    first.compare (.decimal second) = .ok left → second.compare (.decimal third) = .ok right →
      first.compare (.decimal third) = .ok whole → left ≤ 0 → right ≤ 0 → whole ≤ 0
  addComm : ∀ {left right first second : Decimal}, left.add (.decimal right) = .ok first →
    right.add (.decimal left) = .ok second → first = second
  addAssoc : ∀ {a b c ab bc first second : Decimal}, a.add (.decimal b) = .ok ab →
    ab.add (.decimal c) = .ok first → b.add (.decimal c) = .ok bc →
      a.add (.decimal bc) = .ok second → first = second
  multiplyComm : ∀ {left right first second : Decimal},
    left.multiply (.decimal right) = .ok first →
      right.multiply (.decimal left) = .ok second → first = second
  multiplyAssoc : ∀ {a b c ab bc first second : Decimal}, a.multiply (.decimal b) = .ok ab →
    ab.multiply (.decimal c) = .ok first → b.multiply (.decimal c) = .ok bc →
      a.multiply (.decimal bc) = .ok second → first = second

/-! ### Comparing -/

theorem align_symm {left right : Decimal} {leftUnits rightUnits : ℚ} {scale : ℕ}
    (aligned : align left (.decimal right) = .ok (leftUnits, rightUnits, scale)) :
    align right (.decimal left) = .ok (rightUnits, leftUnits, scale) := by
  unfold align at aligned ⊢
  obtain ⟨other, same, aligned⟩ := bind_ok aligned
  cases same
  obtain ⟨_, leftSafe, aligned⟩ := bind_ok aligned
  obtain ⟨_, rightSafe, aligned⟩ := bind_ok aligned
  cases aligned
  have wider : (if left.scale < right.scale then right.scale else left.scale) =
      if right.scale < left.scale then left.scale else right.scale := by
    split <;> split <;> omega
  simp only [asDecimal, bind, Except.bind, wider]
  rw [guard_passes (guard_ok rightSafe), guard_passes (guard_ok leftSafe)]
  rfl

theorem compare_symm {left right : Decimal} {order : ℤ}
    (ran : left.compare (.decimal right) = .ok order) :
    right.compare (.decimal left) = .ok (-order) := by
  have order_ := compare_ok ran
  unfold compare at ran
  obtain ⟨⟨leftUnits, rightUnits, scale⟩, aligned, made⟩ := bind_ok ran
  have swapped := align_symm aligned
  have answers : ∃ back, right.compare (.decimal left) = .ok back := by
    refine ⟨if rightUnits < leftUnits then -1 else if leftUnits < rightUnits then 1 else 0, ?_⟩
    unfold compare
    rw [swapped]
    rfl
  obtain ⟨back, ranBack⟩ := answers
  have back_ := compare_ok ranBack
  rw [ranBack, back_, order_]
  congr 1
  rcases lt_trichotomy left.value right.value with less | same | more
  · rw [if_neg less.not_gt, if_pos less, if_pos less]
    rfl
  · rw [same]
    simp
  · rw [if_pos more, if_neg more.not_gt, if_pos more]

theorem compare_self (decimal : Decimal) : decimal.compare (.decimal decimal) = .ok 0 := by
  have units : decimal.units * pow ((decimal.scale : ℤ) - decimal.scale) = decimal.units := by
    rw [sub_self]
    simp [pow]
  unfold compare align
  simp only [asDecimal, bind, Except.bind, lt_self_iff_false, if_false, units,
    guard_passes decimal.units_safe, pure, Except.pure]

theorem le_of_compare {left right : Decimal} {order : ℤ}
    (ran : left.compare (.decimal right) = .ok order) :
    order ≤ 0 ↔ left.value ≤ right.value := by
  have order_ := compare_ok ran
  rcases lt_trichotomy left.value right.value with less | same | more
  · rw [if_pos less] at order_
    exact ⟨fun _ => less.le, fun _ => by omega⟩
  · rw [same] at order_
    simp only [lt_self_iff_false, if_false] at order_
    exact ⟨fun _ => same.le, fun _ => by omega⟩
  · rw [if_neg more.not_gt, if_pos more] at order_
    exact ⟨fun _ => by omega, fun le => absurd more le.not_gt⟩

/-! ### The laws -/

theorem decimal_isExact : IsExact where
  add := fun ran => (add_ok ran).1
  subtract := fun ran => (subtract_ok ran).1
  multiply := fun ran => (multiply_ok ran).1
  negate := fun ran => (negate_ok ran).1
  rescale := rescale_ok
  compare := compare_ok
  parse := parse_toString
  round := fun ran => ⟨(round_ok ran).1, Mode.rounds_iff (round_ok ran).2⟩
  roundAnswers := by
    intro decimal scale mode
    by_cases fewer : scale < decimal.scale
    · exact .inl (round_answers fewer mode)
    · by_cases safe : |decimal.value * 10 ^ scale| ≤ SAFE
      · obtain ⟨answer, ran⟩ := rescale_answers (not_lt.mp fewer) safe
        refine .inl ⟨answer, ?_⟩
        unfold Decimal.round
        rw [if_pos (by omega)]
        exact ran
      · exact .inr ⟨not_lt.mp fewer, not_le.mp safe⟩
  divide := by
    intro left right answer scale mode ran
    obtain ⟨some_, place, rounds⟩ := divide_ok ran
    exact ⟨some_, place, Mode.rounds_iff rounds⟩
  divideAnswers := by
    intro left right places mode some_
    by_cases safe : |left.units * pow (places - left.scale + right.scale + 2)| ≤ SAFE
    · exact .inl (divide_answers some_ safe mode)
    · exact .inr (not_le.mp safe)
  compareAnswers := compare_self
  compareSymm := compare_symm
  compareTrans := by
    intro first second third left right whole firstRan secondRan wholeRan low high
    have below := (le_of_compare firstRan).mp low
    have above := (le_of_compare secondRan).mp high
    exact (le_of_compare wholeRan).mpr (below.trans above)
  addComm := by
    intro left right first second firstRan secondRan
    obtain ⟨value, scale⟩ := add_ok firstRan
    obtain ⟨value', scale'⟩ := add_ok secondRan
    exact eq_of_value (by rw [scale, scale', max_comm]) (by rw [value, value', add_comm])
  addAssoc := by
    intro a b c ab bc first second abRan firstRan bcRan secondRan
    obtain ⟨value, scale⟩ := add_ok firstRan
    obtain ⟨value', scale'⟩ := add_ok secondRan
    rw [(add_ok abRan).1] at value
    rw [(add_ok abRan).2] at scale
    rw [(add_ok bcRan).1] at value'
    rw [(add_ok bcRan).2] at scale'
    exact eq_of_value (by rw [scale, scale', max_assoc]) (by rw [value, value', add_assoc])
  multiplyComm := by
    intro left right first second firstRan secondRan
    obtain ⟨value, scale⟩ := multiply_ok firstRan
    obtain ⟨value', scale'⟩ := multiply_ok secondRan
    exact eq_of_value (by rw [scale, scale', Nat.add_comm]) (by rw [value, value', mul_comm])
  multiplyAssoc := by
    intro a b c ab bc first second abRan firstRan bcRan secondRan
    obtain ⟨value, scale⟩ := multiply_ok firstRan
    obtain ⟨value', scale'⟩ := multiply_ok secondRan
    rw [(multiply_ok abRan).1] at value
    rw [(multiply_ok abRan).2] at scale
    rw [(multiply_ok bcRan).1] at value'
    rw [(multiply_ok bcRan).2] at scale'
    exact eq_of_value (by rw [scale, scale', Nat.add_assoc]) (by rw [value, value', mul_assoc])

end Decimal

end CScript
