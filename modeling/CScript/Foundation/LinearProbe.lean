/-
Linear probing over a ring of slots.

A scan walks the slots cyclically from a home position and stops at the first
slot that satisfies a test.  The two facts every open-addressing table rests on
are proved here once: a slot whose path from home is unobstructed is found, and
a scan with any stopping slot in the ring ends.
-/

import Mathlib.Algebra.Group.Nat.Defs
import Mathlib.Data.Nat.Find
import Mathlib.Tactic.Common

namespace Foundation.LinearProbe

def mask (hash size : Nat) : Nat :=
  hash &&& (size - 1)

theorem mask_eq_mod {size : Nat} (power : ∃ exponent, size = 2 ^ exponent) (hash : Nat) :
    mask hash size = hash % size := by
  obtain ⟨exponent, rfl⟩ := power
  exact Nat.and_two_pow_sub_one_eq_mod hash exponent

/-- Walk the ring of `size` slots from `index` until `stop` holds. -/
def scan (size : Nat) (stop : Nat → Bool) : Nat → Nat → Option Nat
  | 0, _ => none
  | fuel + 1, index =>
      if stop index then some index
      else scan size stop fuel ((index + 1) % size)

/-- How many steps a scan from `home` takes to reach `slot`. -/
def distance (size home slot : Nat) : Nat :=
  (slot + size - home) % size

theorem distance_lt {size : Nat} (home slot : Nat) (positive : 0 < size) :
    distance size home slot < size :=
  Nat.mod_lt _ positive

theorem home_add_distance {size home slot : Nat}
    (homeBound : home < size) (slotBound : slot < size) :
    (home + distance size home slot) % size = slot := by
  unfold distance
  rw [Nat.add_mod_mod]
  have rearranged : home + (slot + size - home) = slot + size := by omega
  rw [rearranged, Nat.add_mod_right, Nat.mod_eq_of_lt slotBound]

theorem distance_home_add {size home steps : Nat}
    (homeBound : home < size) (stepsBound : steps < size) :
    distance size home ((home + steps) % size) = steps := by
  unfold distance
  by_cases wrapped : home + steps < size
  · rw [Nat.mod_eq_of_lt wrapped]
    have rearranged : home + steps + size - home = steps + size := by omega
    rw [rearranged, Nat.add_mod_right, Nat.mod_eq_of_lt stepsBound]
  · have reduced : (home + steps) % size = home + steps - size := by
      rw [Nat.mod_eq_sub_mod (by omega)]
      exact Nat.mod_eq_of_lt (by omega)
    rw [reduced]
    have rearranged : home + steps - size + size - home = steps := by omega
    rw [rearranged, Nat.mod_eq_of_lt stepsBound]

/-- No slot strictly between `home` and `slot` on the probe path is `free`. -/
def Unobstructed (size : Nat) (free : Nat → Bool) (home slot : Nat) : Prop :=
  ∀ steps, steps < distance size home slot → free ((home + steps) % size) = false

private theorem next_slot (size index steps : Nat) :
    ((index + 1) % size + steps) % size = (index + (steps + 1)) % size := by
  rw [Nat.mod_add_mod, Nat.add_assoc, Nat.add_comm 1 steps]

theorem scan_eq_first (size : Nat) (stop : Nat → Bool) :
    ∀ (fuel index steps : Nat), index < size → steps < fuel →
      stop ((index + steps) % size) = true →
      (∀ earlier, earlier < steps → stop ((index + earlier) % size) = false) →
      scan size stop fuel index = some ((index + steps) % size)
  | 0, _, _, _, bound, _, _ => absurd bound (Nat.not_lt_zero _)
  | fuel + 1, index, steps, indexBound, bound, stops, before => by
      have positive : 0 < size := Nat.lt_of_le_of_lt (Nat.zero_le index) indexBound
      unfold scan
      cases steps with
      | zero =>
          have landed : (index + 0) % size = index := Nat.mod_eq_of_lt indexBound
          rw [landed] at stops ⊢
          rw [if_pos stops]
      | succ steps =>
          have here := before 0 (Nat.succ_pos steps)
          rw [Nat.add_zero, Nat.mod_eq_of_lt indexBound] at here
          rw [if_neg (by rw [here]; exact Bool.false_ne_true)]
          have rest := scan_eq_first size stop fuel ((index + 1) % size) steps
            (Nat.mod_lt _ positive) (Nat.lt_of_succ_lt_succ bound)
            (by rw [next_slot]; exact stops)
            (by
              intro earlier smaller
              rw [next_slot]
              exact before (earlier + 1) (Nat.succ_lt_succ smaller))
          rw [rest, next_slot]

/-- A scan over a ring with a stopping slot ends, at a stopping slot reached
over slots that do not stop it. -/
theorem scan_stops {size : Nat} (stop : Nat → Bool) {home slot : Nat}
    (homeBound : home < size) (slotBound : slot < size) (stops : stop slot = true) :
    ∃ found, scan size stop size home = some found ∧ found < size ∧
      stop found = true ∧ Unobstructed size stop home found := by
  have reachable : ∃ steps, stop ((home + steps) % size) = true :=
    ⟨distance size home slot, by rw [home_add_distance homeBound slotBound]; exact stops⟩
  have positive : 0 < size := Nat.lt_of_le_of_lt (Nat.zero_le home) homeBound
  have least := Nat.find_spec reachable
  have within : Nat.find reachable < size :=
    Nat.lt_of_le_of_lt
      (Nat.find_min' reachable (by rw [home_add_distance homeBound slotBound]; exact stops))
      (distance_lt home slot positive)
  have before : ∀ earlier, earlier < Nat.find reachable →
      stop ((home + earlier) % size) = false := by
    intro earlier smaller
    exact Bool.eq_false_iff.mpr (Nat.find_min reachable smaller)
  refine ⟨(home + Nat.find reachable) % size,
    scan_eq_first size stop size home _ homeBound within least before,
    Nat.mod_lt _ positive, least, ?_⟩
  intro steps smaller
  rw [distance_home_add homeBound within] at smaller
  exact before steps smaller

/-- A slot that stops the scan and whose path from home holds no other
stopping slot is the one the scan finds. -/
theorem scan_finds {size : Nat} {stop : Nat → Bool} {home slot : Nat}
    (homeBound : home < size) (slotBound : slot < size) (stops : stop slot = true)
    (clear : Unobstructed size stop home slot) :
    scan size stop size home = some slot := by
  have positive : 0 < size := Nat.lt_of_le_of_lt (Nat.zero_le home) homeBound
  have landed := home_add_distance homeBound slotBound
  have found := scan_eq_first size stop size home (distance size home slot) homeBound
    (distance_lt home slot positive) (by rw [landed]; exact stops) clear
  rw [found, landed]

/-- Looking for the one matching slot while stopping at free slots finds it
whenever no free slot lies on its path. -/
theorem scan_finds_match {size : Nat} (free matching : Nat → Bool) {home slot : Nat}
    (homeBound : home < size) (slotBound : slot < size) (here : matching slot = true)
    (unique : ∀ other, other < size → matching other = true → other = slot)
    (clear : Unobstructed size free home slot) :
    scan size (fun index => free index || matching index) size home = some slot := by
  have positive : 0 < size := Nat.lt_of_le_of_lt (Nat.zero_le home) homeBound
  apply scan_finds homeBound slotBound
  · simp only [here, Bool.or_true]
  · intro steps smaller
    have notFree := clear steps smaller
    have notMatching : matching ((home + steps) % size) = false := by
      apply Bool.eq_false_iff.mpr
      intro matched
      have same := unique _ (Nat.mod_lt _ positive) matched
      have reached := distance_home_add homeBound
        (Nat.lt_trans smaller (distance_lt home slot positive))
      rw [same] at reached
      omega
    simp only [notFree, notMatching, Bool.or_false]

theorem Unobstructed.mono {size : Nat} {free fewer : Nat → Bool} {home slot : Nat}
    (clear : Unobstructed size free home slot)
    (weaker : ∀ index, fewer index = true → free index = true) :
    Unobstructed size fewer home slot := by
  intro steps smaller
  apply Bool.eq_false_iff.mpr
  intro stillFree
  have was := clear steps smaller
  rw [weaker _ stillFree] at was
  cases was

end Foundation.LinearProbe
