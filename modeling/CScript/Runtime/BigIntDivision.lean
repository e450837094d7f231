/-
BigInt division, one bit at a time.

The loop keeps the equation of long division for the bits already brought down:
they are the quotient so far times the divisor and a remainder below it.
-/

import CScript.Runtime.BigIntArithmetic

namespace CScript

/-! ### The source -/

/-- The doubled remainder with bit `i` of `a` brought down. -/
def addBit (a : BigInt) (i : Nat) (doubled : BigInt) : Option BigInt := do
  let limb ← a.limbs[i / 32]?
  if (limb >>> UInt32.ofNat (i % 32)) &&& 1 ≠ 0 then csBigAdd doubled (csBigFromInt64 1)
  else some doubled

/-- One turn of the loop of `divideMagnitude`, for bit `i` of `a`: the limbs of
the quotient and the remainder. -/
def divideStep (a b : BigInt) (i : Nat) (quotient : List UInt32) (remainder : BigInt) :
    Option (List UInt32 × BigInt) := do
  let doubled ← csBigAdd remainder remainder
  let raised ← addBit a i doubled
  if compareMagnitude raised b ≥ 0 then
    let reduced ← subtractMagnitude raised b
    let held ← quotient[i / 32]?
    return (quotient.set (i / 32) (held ||| 1 <<< UInt32.ofNat (i % 32)), reduced)
  else return (quotient, raised)

/-- That many turns of the loop, from the bit below `top` down. -/
def divideBits (a b : BigInt) :
    Nat → Nat → List UInt32 → BigInt → Option (List UInt32 × BigInt)
  | 0, _, quotient, remainder => some (quotient, remainder)
  | turns + 1, top, quotient, remainder => do
      let (quotient, remainder) ← divideStep a b (top - 1) quotient remainder
      divideBits a b turns (top - 1) quotient remainder

def divideMagnitude (a b : BigInt) : Option (BigInt × BigInt) := do
  let (quotient, remainder) ←
    divideBits a b (a.count * 32) (a.count * 32) (reserve a.count).limbs (reserve 0)
  return (trim { limbs := quotient, negative := false }, trim remainder)

/-- The inner option is the answer, or the refusal of a zero divisor. -/
def csBigDivide (a b : BigInt) : Option (Option BigInt) :=
  if csBigIsZero b then some none
  else do
    let (quotient, _) ← divideMagnitude { a with negative := false } { b with negative := false }
    return some (trim { quotient with negative := a.negative != b.negative })

def csBigRemainder (a b : BigInt) : Option (Option BigInt) :=
  if csBigIsZero b then some none
  else do
    let (_, remainder) ← divideMagnitude { a with negative := false } { b with negative := false }
    return some (trim { remainder with negative := a.negative })

/-! ### Setting a bit -/

private theorem or_two_pow {number bit : Nat} (clear : number.testBit bit = false) :
    number ||| 2 ^ bit = number + 2 ^ bit := by
  have even : number / 2 ^ bit % 2 = 0 := by
    rw [Nat.testBit_eq_decide_div_mod_eq, decide_eq_false_iff_not] at clear
    omega
  have low : number % 2 ^ bit < 2 ^ bit := Nat.mod_lt _ (Nat.two_pow_pos bit)
  have split : number = 2 ^ (bit + 1) * (number / 2 ^ bit / 2) + number % 2 ^ bit := by
    have whole := Nat.div_add_mod number (2 ^ bit)
    have half := Nat.div_add_mod (number / 2 ^ bit) 2
    rw [even, Nat.add_zero] at half
    rw [Nat.pow_succ, Nat.mul_assoc, half]
    exact whole.symm
  have room : number % 2 ^ bit + 2 ^ bit < 2 ^ (bit + 1) := by
    rw [Nat.pow_succ]
    omega
  calc number ||| 2 ^ bit
      = (2 ^ (bit + 1) * (number / 2 ^ bit / 2) ||| number % 2 ^ bit) ||| 2 ^ bit := by
        rw [← Nat.two_pow_add_eq_or_of_lt (by omega), ← split]
    _ = 2 ^ (bit + 1) * (number / 2 ^ bit / 2) ||| (number % 2 ^ bit + 2 ^ bit) := by
        rw [Nat.or_assoc, Nat.or_two_pow_eq_add_of_lt low]
    _ = number + 2 ^ bit := by
        rw [← Nat.two_pow_add_eq_or_of_lt room, ← Nat.add_assoc, ← split]

private theorem limb_or {limb : UInt32} {bit : Nat} (small : bit < 32)
    (clear : limb.toNat.testBit bit = false) :
    (limb ||| 1 <<< UInt32.ofNat bit).toNat = limb.toNat + 2 ^ bit := by
  have amount : (UInt32.ofNat bit).toNat % 32 = bit := by
    rw [UInt32.toNat_ofNat']
    omega
  have shifted : ((1 : UInt32) <<< UInt32.ofNat bit).toNat = 2 ^ bit := by
    rw [UInt32.toNat_shiftLeft, amount]
    have one : (1 : UInt32).toNat = 1 := rfl
    rw [one, Nat.one_shiftLeft, Nat.mod_eq_of_lt (Nat.pow_lt_pow_right (by decide) small)]
  rw [UInt32.toNat_or, shifted, or_two_pow clear]

private theorem magnitude_setBit {limbs : List UInt32} {i : Nat} {held : UInt32}
    (here : limbs[i / 32]? = some held) (clear : (magnitude limbs).testBit i = false) :
    magnitude (limbs.set (i / 32) (held ||| 1 <<< UInt32.ofNat (i % 32))) =
      magnitude limbs + 2 ^ i := by
  have isHeld : limbs.getD (i / 32) 0 = held := by
    rw [List.getD_eq_getElem?_getD, here]
    rfl
  rw [magnitude_testBit, isHeld] at clear
  have set := magnitude_set here (held ||| 1 <<< UInt32.ofNat (i % 32))
  rw [limb_or (Nat.mod_lt i (by decide)) clear, Nat.mul_add] at set
  have weight : (2 ^ 32) ^ (i / 32) * 2 ^ (i % 32) = 2 ^ i := by
    rw [← Nat.pow_mul, ← Nat.pow_add, Nat.div_add_mod]
  rw [weight] at set
  omega

/-! ### Numbers without a sign -/

theorem magnitude_eq_natAbs (value : BigInt) : magnitude value.limbs = value.toInt.natAbs := by
  unfold BigInt.toInt
  cases value.negative <;> simp

theorem subtractMagnitude_exact {a b : BigInt} (enough : magnitude b.limbs ≤ magnitude a.limbs) :
    ∃ difference, subtractMagnitude a b = some difference ∧ difference.Canonical ∧
      difference.toInt = magnitude a.limbs - magnitude b.limbs := by
  obtain ⟨difference, ran, value⟩ := subtractMagnitude_spec enough
  have shape := ran
  unfold subtractMagnitude at shape
  obtain ⟨limbs, _, shape⟩ := Option.bind_eq_some_iff.mp shape
  cases shape
  refine ⟨_, ran, trim_canonical _, ?_⟩
  rw [toInt_trim]
  rw [magnitude_trim] at value
  show ((magnitude limbs : Nat) : Int) = _
  rw [value]
  omega

/-! ### The loop -/

/-- Before the turn for the bit below `top`: the bits from `top` up have been
divided. -/
structure Divided (a b : BigInt) (top : Nat) (quotient : List UInt32) (remainder : BigInt) :
    Prop where
  length : quotient.length = a.count
  quotient : magnitude quotient =
    2 ^ top * (magnitude a.limbs / 2 ^ top / magnitude b.limbs)
  canonical : remainder.Canonical
  remainder : remainder.toInt = (magnitude a.limbs / 2 ^ top % magnitude b.limbs : Nat)

theorem Divided.below {a b : BigInt} {top : Nat} {quotient : List UInt32} {remainder : BigInt}
    (divided : Divided a b top quotient remainder) (nonzero : 0 < magnitude b.limbs) :
    magnitude remainder.limbs < magnitude b.limbs := by
  rw [magnitude_eq_natAbs, divided.remainder, Int.natAbs_natCast]
  exact Nat.mod_lt _ nonzero

private theorem bring_down {divisor bit : Nat} (high : Nat) (positive : 0 < divisor)
    (small : bit ≤ 1) :
    (2 * (high % divisor) + bit < divisor →
        (2 * high + bit) / divisor = 2 * (high / divisor) ∧
          (2 * high + bit) % divisor = 2 * (high % divisor) + bit) ∧
      (divisor ≤ 2 * (high % divisor) + bit →
        (2 * high + bit) / divisor = 2 * (high / divisor) + 1 ∧
          (2 * high + bit) % divisor = 2 * (high % divisor) + bit - divisor) := by
  have whole := Nat.div_add_mod high divisor
  have below := Nat.mod_lt high positive
  have doubled : divisor * (2 * (high / divisor)) = 2 * (divisor * (high / divisor)) := by ring
  constructor
  · intro fits
    refine (Nat.div_mod_unique positive).mpr ⟨?_, fits⟩
    rw [doubled]
    omega
  · intro reaches
    refine (Nat.div_mod_unique positive).mpr ⟨?_, by omega⟩
    rw [Nat.mul_add, doubled]
    omega

private theorem addBit_exact {a doubled : BigInt} {i : Nat} (bound : i < a.count * 32)
    (canonical : doubled.Canonical) :
    ∃ raised, addBit a i doubled = some raised ∧ raised.Canonical ∧
      raised.toInt = doubled.toInt + (magnitude a.limbs / 2 ^ i % 2 : Nat) := by
  have inside : i / 32 < a.limbs.length := by
    have within : a.count = a.limbs.length := rfl
    omega
  have limbHere : a.limbs[i / 32]? = some (a.limbs.getD (i / 32) 0) := by
    rw [List.getElem?_eq_getElem inside, List.getD_eq_getElem _ _ inside]
  have bit := limb_bit (a.limbs.getD (i / 32) 0) (Nat.mod_lt i (by decide : 0 < 32))
  rw [← magnitude_testBit, Nat.testBit_eq_decide_div_mod_eq, decide_eq_true_eq] at bit
  unfold addBit
  simp only [limbHere, Option.bind_eq_bind, Option.bind_some]
  by_cases set : (a.limbs.getD (i / 32) 0 >>> UInt32.ofNat (i % 32)) &&& 1 ≠ 0
  · have one : (csBigFromInt64 1).Canonical := by decide
    have oneEq : (csBigFromInt64 1).toInt = 1 := by decide
    obtain ⟨raised, ran, raisedCanonical, total⟩ := csBigAdd_exact canonical one
    refine ⟨raised, by rw [if_pos set, ran], raisedCanonical, ?_⟩
    rw [total, oneEq, bit.mp set]
    rfl
  · have clear : magnitude a.limbs / 2 ^ i % 2 = 0 := by
      have notOne := mt bit.mpr set
      omega
    refine ⟨doubled, if_neg set, canonical, ?_⟩
    rw [clear]
    exact (Int.add_zero _).symm

theorem divideStep_divides {a b : BigInt} (bCanonical : b.Canonical)
    (nonzero : 0 < magnitude b.limbs) {i : Nat} (bound : i < a.count * 32)
    {quotient : List UInt32} {remainder : BigInt}
    (divided : Divided a b (i + 1) quotient remainder) :
    ∃ nextQuotient nextRemainder,
      divideStep a b i quotient remainder = some (nextQuotient, nextRemainder) ∧
        Divided a b i nextQuotient nextRemainder := by
  have heldHere : quotient[i / 32]? = some (quotient.getD (i / 32) 0) := by
    have within : i / 32 < quotient.length := by
      rw [divided.length]
      omega
    rw [List.getElem?_eq_getElem within, List.getD_eq_getElem _ _ within]
  have halves : magnitude a.limbs / 2 ^ i =
      2 * (magnitude a.limbs / 2 ^ (i + 1)) + magnitude a.limbs / 2 ^ i % 2 := by
    rw [Nat.pow_succ, ← Nat.div_div_eq_div_mul, Nat.div_add_mod]
  obtain ⟨doubled, ranDouble, doubledCanonical, doubledEq⟩ :=
    csBigAdd_exact divided.canonical divided.canonical
  obtain ⟨raised, ranRaise, raisedCanonical, raisedEq⟩ := addBit_exact bound doubledCanonical
  have raisedSize : magnitude raised.limbs =
      2 * (magnitude a.limbs / 2 ^ (i + 1) % magnitude b.limbs) +
        magnitude a.limbs / 2 ^ i % 2 := by
    rw [magnitude_eq_natAbs, raisedEq, doubledEq, divided.remainder]
    omega
  obtain ⟨stays, reduces⟩ := bring_down (magnitude a.limbs / 2 ^ (i + 1)) nonzero
    (Nat.lt_succ_iff.mp (Nat.mod_lt (magnitude a.limbs / 2 ^ i) (by decide : 0 < 2)))
  rw [← halves, ← raisedSize] at stays reduces
  unfold divideStep
  simp only [ranDouble, ranRaise, Option.bind_eq_bind, Option.bind_some]
  have quotientEq : magnitude quotient =
      2 ^ i * (2 * (magnitude a.limbs / 2 ^ (i + 1) / magnitude b.limbs)) := by
    rw [← Nat.mul_assoc, ← Nat.pow_succ]
    exact divided.quotient
  have order := compareMagnitude_spec raisedCanonical bCanonical
  by_cases reaches : magnitude b.limbs ≤ magnitude raised.limbs
  · have answered : compareMagnitude raised b ≥ 0 := by
      rcases order with ⟨answer, _⟩ | ⟨_, less⟩ | ⟨answer, _⟩
      · rw [answer]
      · omega
      · rw [answer]
        decide
    obtain ⟨reduced, ranReduce, reducedCanonical, reducedEq⟩ := subtractMagnitude_exact reaches
    obtain ⟨quotientNext, remainderNext⟩ := reduces reaches
    have clear : (magnitude quotient).testBit i = false := by
      rw [divided.quotient, Nat.testBit_two_pow_mul]
      simp
    rw [if_pos answered, ranReduce, Option.bind_some, heldHere, Option.bind_some]
    refine ⟨_, _, rfl, ⟨?_, ?_, reducedCanonical, ?_⟩⟩
    · rw [List.length_set, divided.length]
    · rw [magnitude_setBit heldHere clear, quotientEq, quotientNext]
      ring
    · rw [reducedEq, remainderNext]
      omega
  · have answered : ¬compareMagnitude raised b ≥ 0 := by
      rcases order with ⟨_, equal⟩ | ⟨answer, _⟩ | ⟨_, less⟩
      · omega
      · rw [answer]
        decide
      · omega
    obtain ⟨quotientNext, remainderNext⟩ := stays (Nat.not_le.mp reaches)
    rw [if_neg answered]
    refine ⟨_, _, rfl, ⟨divided.length, ?_, raisedCanonical, ?_⟩⟩
    · rw [quotientEq, quotientNext]
    · rw [remainderNext, raisedSize, raisedEq, doubledEq, divided.remainder]
      push_cast
      ring

theorem divideBits_divides (a : BigInt) {b : BigInt} (bCanonical : b.Canonical)
    (nonzero : 0 < magnitude b.limbs) :
    ∀ (turns top : Nat) {quotient : List UInt32} {remainder : BigInt}, turns ≤ top →
      top ≤ a.count * 32 → Divided a b top quotient remainder →
      ∃ lastQuotient lastRemainder,
        divideBits a b turns top quotient remainder = some (lastQuotient, lastRemainder) ∧
          Divided a b (top - turns) lastQuotient lastRemainder
  | 0, top, quotient, remainder, _, _, divided => ⟨quotient, remainder, rfl, divided⟩
  | turns + 1, top, quotient, remainder, enough, bound, divided => by
      have above : top - 1 + 1 = top := by omega
      obtain ⟨nextQuotient, nextRemainder, stepped, next⟩ := divideStep_divides
        bCanonical nonzero (show top - 1 < a.count * 32 by omega) (by rw [above]; exact divided)
      obtain ⟨lastQuotient, lastRemainder, ran, last⟩ := divideBits_divides a bCanonical
        nonzero turns (top - 1) (by omega) (by omega) next
      refine ⟨lastQuotient, lastRemainder, ?_, ?_⟩
      · unfold divideBits
        rw [stepped]
        exact ran
      · have same : top - (turns + 1) = top - 1 - turns := by omega
        rw [same]
        exact last

private theorem divided_start (a b : BigInt) :
    Divided a b (a.count * 32) (reserve a.count).limbs (reserve 0) := by
  have none_ : magnitude a.limbs / 2 ^ (a.count * 32) = 0 := by
    apply Nat.div_eq_of_lt
    rw [Nat.mul_comm, Nat.pow_mul]
    exact magnitude_lt a.limbs
  constructor
  · exact List.length_replicate
  · rw [none_, Nat.zero_div, Nat.mul_zero]
    exact magnitude_zeros a.count
  · exact reserve_zero_canonical
  · rw [none_, Nat.zero_mod, reserve_zero_toInt]
    rfl

theorem divideMagnitude_exact (a : BigInt) {b : BigInt} (bCanonical : b.Canonical)
    (nonzero : 0 < magnitude b.limbs) :
    ∃ quotient remainder, divideMagnitude a b = some (quotient, remainder) ∧
      magnitude quotient.limbs = magnitude a.limbs / magnitude b.limbs ∧
      magnitude remainder.limbs = magnitude a.limbs % magnitude b.limbs := by
  obtain ⟨quotient, remainder, ran, divided⟩ := divideBits_divides a bCanonical nonzero
    (a.count * 32) (a.count * 32) (Nat.le_refl _) (Nat.le_refl _) (divided_start a b)
  rw [Nat.sub_self] at divided
  have quotientEq := divided.quotient
  rw [Nat.pow_zero, Nat.one_mul, Nat.div_one] at quotientEq
  refine ⟨trim { limbs := quotient, negative := false }, trim remainder, ?_, ?_, ?_⟩
  · unfold divideMagnitude
    simp only [ran, Option.bind_eq_bind, Option.bind_some, Option.pure_def]
  · rw [magnitude_trim]
    exact quotientEq
  · rw [magnitude_trim, magnitude_eq_natAbs, divided.remainder, Int.natAbs_natCast, Nat.pow_zero,
      Nat.div_one]

/-! ### Signs -/

private theorem BigInt.Canonical.unsigned {value : BigInt} (canonical : value.Canonical) :
    ({ value with negative := false } : BigInt).Canonical :=
  ⟨canonical.trimmed, fun _ => rfl⟩

private def signed (negative : Bool) (size : Nat) : Int :=
  if negative then -(size : Int) else size

private theorem signed_division {divisor : Nat} (positive : 0 < divisor) (dividend : Nat)
    (first second : Bool) :
    signed first dividend =
        signed (first != second) (dividend / divisor) * signed second divisor +
          signed first (dividend % divisor) ∧
      (signed first (dividend % divisor)).natAbs < (signed second divisor).natAbs ∧
      signed (first != second) (dividend / divisor) =
        (signed first dividend).tdiv (signed second divisor) ∧
      (signed first (dividend % divisor) = 0 ∨
        (signed first (dividend % divisor)).sign = (signed first dividend).sign) := by
  have whole : (dividend : Int) =
      (dividend / divisor : Nat) * divisor + (dividend % divisor : Nat) := by
    exact_mod_cast (Nat.div_add_mod' dividend divisor).symm
  have below := Nat.mod_lt dividend positive
  have truncated : ((dividend / divisor : Nat) : Int) = (dividend : Int).tdiv divisor :=
    Int.ofNat_tdiv dividend divisor
  have sign : ((dividend % divisor : Nat) : Int) = 0 ∨
      ((dividend % divisor : Nat) : Int).sign = (dividend : Int).sign := by
    rcases Nat.eq_zero_or_pos (dividend % divisor) with zero | some_
    · exact Or.inl (congrArg Nat.cast zero)
    · right
      have larger := Nat.mod_le dividend divisor
      rw [Int.sign_eq_one_of_pos (by omega), Int.sign_eq_one_of_pos (by omega)]
  have sizes : ∀ negative size, (signed negative size).natAbs = size := by
    intro negative size
    cases negative <;> simp [signed]
  refine ⟨?_, by rw [sizes, sizes]; exact below, ?_, ?_⟩
  · cases first <;> cases second <;> simp only [signed, Bool.bne_true, Bool.bne_false,
      Bool.not_true, Bool.not_false, Bool.false_eq_true, if_true, if_false] <;> linarith
  · cases first <;> cases second <;> simp only [signed, Bool.bne_true, Bool.bne_false,
      Bool.not_true, Bool.not_false, Bool.false_eq_true, if_true, if_false, Int.neg_tdiv,
      Int.tdiv_neg, truncated, Int.neg_neg]
  · cases first with
    | false => exact sign
    | true =>
        rcases sign with zero | same
        · left
          simp only [signed, if_true, zero, Int.neg_zero]
        · right
          simp only [signed, if_true, Int.sign_neg, same]

private theorem positive_of_not_zero {b : BigInt} (bCanonical : b.Canonical)
    (nonzero : csBigIsZero b = false) : 0 < magnitude b.limbs := by
  apply Nat.pos_of_ne_zero
  intro zero
  rw [bCanonical.isZero_iff.mpr zero] at nonzero
  cases nonzero

private theorem csBigDivide_signed (a : BigInt) {b : BigInt} (bCanonical : b.Canonical)
    (nonzero : csBigIsZero b = false) :
    ∃ quotient, csBigDivide a b = some (some quotient) ∧ quotient.Canonical ∧
      quotient.toInt =
        signed (a.negative != b.negative) (magnitude a.limbs / magnitude b.limbs) := by
  have positive := positive_of_not_zero bCanonical nonzero
  obtain ⟨quotient, remainder, ran, quotientEq, _⟩ := divideMagnitude_exact
    { a with negative := false } bCanonical.unsigned positive
  refine ⟨trim { quotient with negative := a.negative != b.negative }, ?_, trim_canonical _, ?_⟩
  · unfold csBigDivide
    rw [if_neg (by rw [nonzero]; exact Bool.false_ne_true), ran]
    rfl
  · rw [toInt_trim]
    unfold BigInt.toInt signed
    rw [quotientEq]

private theorem csBigRemainder_signed (a : BigInt) {b : BigInt} (bCanonical : b.Canonical)
    (nonzero : csBigIsZero b = false) :
    ∃ remainder, csBigRemainder a b = some (some remainder) ∧ remainder.Canonical ∧
      remainder.toInt = signed a.negative (magnitude a.limbs % magnitude b.limbs) := by
  have positive := positive_of_not_zero bCanonical nonzero
  obtain ⟨quotient, remainder, ran, _, remainderEq⟩ := divideMagnitude_exact
    { a with negative := false } bCanonical.unsigned positive
  refine ⟨trim { remainder with negative := a.negative }, ?_, trim_canonical _, ?_⟩
  · unfold csBigRemainder
    rw [if_neg (by rw [nonzero]; exact Bool.false_ne_true), ran]
    rfl
  · rw [toInt_trim]
    unfold BigInt.toInt signed
    rw [remainderEq]

theorem csBigDivide_exact (a : BigInt) {b : BigInt} (bCanonical : b.Canonical)
    (nonzero : csBigIsZero b = false) :
    ∃ quotient, csBigDivide a b = some (some quotient) ∧ quotient.Canonical ∧
      quotient.toInt = a.toInt.tdiv b.toInt := by
  obtain ⟨quotient, ran, canonical, quotientEq⟩ := csBigDivide_signed a bCanonical nonzero
  obtain ⟨_, _, truncated, _⟩ := signed_division (positive_of_not_zero bCanonical nonzero)
    (magnitude a.limbs) a.negative b.negative
  exact ⟨quotient, ran, canonical, quotientEq.trans truncated⟩

/-- Every dividend and canonical nonzero divisor of any size: the quotient is
truncated toward zero, the remainder has the sign of the dividend, and the
running remainder is below the divisor before every turn of the loop. -/
theorem bigDivision_exact (a : BigInt) {b : BigInt} (bCanonical : b.Canonical)
    (nonzero : csBigIsZero b = false) :
    (∃ quotient remainder, csBigDivide a b = some (some quotient) ∧
      csBigRemainder a b = some (some remainder) ∧
      quotient.Canonical ∧ remainder.Canonical ∧
      a.toInt = quotient.toInt * b.toInt + remainder.toInt ∧
      remainder.toInt.natAbs < b.toInt.natAbs ∧
      quotient.toInt = a.toInt.tdiv b.toInt ∧
      (remainder.toInt = 0 ∨ remainder.toInt.sign = a.toInt.sign)) ∧
    ∀ turns ≤ a.count * 32, ∃ quotient remainder,
      divideBits { a with negative := false } { b with negative := false } turns (a.count * 32)
          (reserve a.count).limbs (reserve 0) = some (quotient, remainder) ∧
        magnitude remainder.limbs < magnitude b.limbs := by
  have positive := positive_of_not_zero bCanonical nonzero
  constructor
  · obtain ⟨quotient, divided, quotientCanonical, quotientEq⟩ :=
      csBigDivide_signed a bCanonical nonzero
    obtain ⟨remainder, left, remainderCanonical, remainderEq⟩ :=
      csBigRemainder_signed a bCanonical nonzero
    refine ⟨quotient, remainder, divided, left, quotientCanonical, remainderCanonical, ?_⟩
    rw [quotientEq, remainderEq]
    exact signed_division positive (magnitude a.limbs) a.negative b.negative
  · intro turns bound
    have start := divided_start { a with negative := false } { b with negative := false }
    obtain ⟨quotient, remainder, ran, divided⟩ := divideBits_divides
      { a with negative := false } bCanonical.unsigned positive turns _ bound (Nat.le_refl _) start
    exact ⟨quotient, remainder, ran, divided.below positive⟩

/-- -7 divided by 3 is -2, and -1 is left. -/
theorem bigDivision_exact_negative :
    ∃ quotient remainder, csBigDivide { limbs := [7], negative := true }
        { limbs := [3], negative := false } = some (some quotient) ∧
      csBigRemainder { limbs := [7], negative := true } { limbs := [3], negative := false } =
        some (some remainder) ∧
      quotient.toInt = -2 ∧ remainder.toInt.natAbs < 3 := by
  obtain ⟨⟨quotient, remainder, divided, left, _, _, _, below, truncated, _⟩, _⟩ :=
    bigDivision_exact { limbs := [7], negative := true }
      (b := { limbs := [3], negative := false }) (by decide) (by decide)
  exact ⟨quotient, remainder, divided, left, truncated, below⟩

end CScript
