/-
Refinement of a specification by a program, over whole runs.

The program is a partial step function: `none` is a step that fails or never
ends.  The specification is total.  A relation between their states that every
single step keeps, with equal answers, is kept by every run, with equal lists of
answers; in particular no step of a related run fails.
-/

import Mathlib.Tactic.Common

namespace Foundation.Refinement

variable {State Abstract Op Answer : Type}

def run (step : State → Op → Option (State × Answer)) :
    State → List Op → Option (State × List Answer)
  | state, [] => some (state, [])
  | state, op :: ops => do
      let (next, answer) ← step state op
      let (last, answers) ← run step next ops
      return (last, answer :: answers)

theorem run_cons {step : State → Op → Option (State × Answer)} {state last : State} {op : Op}
    {ops : List Op} {answers : List Answer}
    (ran : run step state (op :: ops) = some (last, answers)) :
    ∃ next answer rest, step state op = some (next, answer) ∧
      run step next ops = some (last, rest) ∧ answers = answer :: rest := by
  obtain ⟨⟨next, answer⟩, stepped, after⟩ := Option.bind_eq_some_iff.mp ran
  obtain ⟨⟨_, rest⟩, runs, same⟩ := Option.bind_eq_some_iff.mp after
  obtain ⟨rfl, rfl⟩ := Prod.mk.inj (Option.some.inj same)
  exact ⟨next, answer, rest, stepped, runs, rfl⟩

/-- What every step keeps and answers, every run does. -/
theorem run_invariant {step : State → Op → Option (State × Answer)} (invariant : State → Prop)
    (fits : Answer → Prop) (keeps : ∀ {state op next answer}, invariant state →
      step state op = some (next, answer) → invariant next ∧ fits answer) {ops : List Op} :
    ∀ {state last answers}, invariant state → run step state ops = some (last, answers) →
      invariant last ∧ ∀ answer ∈ answers, fits answer := by
  induction ops with
  | nil =>
      intro state last answers start ran
      obtain ⟨rfl, rfl⟩ := Prod.mk.inj (Option.some.inj ran)
      exact ⟨start, List.forall_mem_nil _⟩
  | cons op ops ih =>
      intro state last answers start ran
      obtain ⟨next, answer, rest, stepped, runs, rfl⟩ := run_cons ran
      obtain ⟨kept, fit⟩ := keeps start stepped
      obtain ⟨ends, others⟩ := ih kept runs
      exact ⟨ends, List.forall_mem_cons.mpr ⟨fit, others⟩⟩

def specify (spec : Abstract → Op → Abstract × Answer) :
    Abstract → List Op → Abstract × List Answer
  | abstract, [] => (abstract, [])
  | abstract, op :: ops =>
      let next := spec abstract op
      let rest := specify spec next.1 ops
      (rest.1, next.2 :: rest.2)

/-- One step of the program does what the specification does and keeps the
relation. -/
def Refines (step : State → Op → Option (State × Answer))
    (spec : Abstract → Op → Abstract × Answer) (related : State → Abstract → Prop) : Prop :=
  ∀ state abstract op, related state abstract →
    ∃ next, step state op = some (next, (spec abstract op).2) ∧
      related next (spec abstract op).1

theorem Refines.run {step : State → Op → Option (State × Answer)}
    {spec : Abstract → Op → Abstract × Answer} {related : State → Abstract → Prop}
    (refines : Refines step spec related) :
    ∀ (ops : List Op) (state : State) (abstract : Abstract), related state abstract →
      ∃ last, Refinement.run step state ops = some (last, (specify spec abstract ops).2) ∧
        related last (specify spec abstract ops).1
  | [], state, _, start => ⟨state, rfl, start⟩
  | op :: ops, state, abstract, start => by
      obtain ⟨next, stepped, nextRelated⟩ := refines state abstract op start
      obtain ⟨last, ran, lastRelated⟩ := refines.run ops next (spec abstract op).1 nextRelated
      refine ⟨last, ?_, lastRelated⟩
      unfold Refinement.run
      rw [stepped, Option.bind_eq_bind, Option.bind_some]
      simp only [ran, Option.bind_eq_bind, Option.bind_some, Option.pure_def]
      rfl

end Foundation.Refinement
