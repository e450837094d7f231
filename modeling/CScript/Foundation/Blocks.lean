/-
Code in blocks, and replacing a stretch of instructions by another.

An instruction goes on, jumps to a block, or ends the run.  Where a stretch does what
another does in every state that the other's instructions accept, a program may have
either.
-/

namespace Foundation.Blocks

inductive Outcome (State Failure : Type) where
  | next (state : State)
  | jump (target : Nat) (state : State)
  | ends (failure : Failure)

variable {Instruction State Failure : Type}

def Outcome.andThen (outcome : Outcome State Failure) (rest : State → Outcome State Failure) :
    Outcome State Failure :=
  match outcome with
  | .next state => rest state
  | .jump target state => .jump target state
  | .ends failure => .ends failure

section

variable (exec : Instruction → State → Outcome State Failure)

def run : List Instruction → State → Outcome State Failure
  | [], state => .next state
  | instruction :: rest, state => (exec instruction state).andThen (run rest)

theorem run_append (first second : List Instruction) (state : State) :
    run exec (first ++ second) state = (run exec first state).andThen (run exec second) := by
  induction first generalizing state with
  | nil => rfl
  | cons instruction first ih =>
      change (exec instruction state).andThen _ = ((exec instruction state).andThen _).andThen _
      cases exec instruction state with
      | next middle => exact ih middle
      | jump target middle => rfl
      | ends failure => rfl

def after (program : Nat → List Instruction) : Nat → Nat → State → Sum (Nat × State) Failure
  | 0, block, state => .inl (block, state)
  | count + 1, block, state =>
      match run exec (program block) state with
      | .next state => after program count (block + 1) state
      | .jump target state => after program count target state
      | .ends failure => .inr failure

/-! ### What the instructions accept -/

variable (accepts : Instruction → State → Prop)

def Meets : List Instruction → State → Prop
  | [], _ => True
  | instruction :: rest, state =>
      accepts instruction state ∧ ∀ middle, exec instruction state = .next middle →
        Meets rest middle

theorem meets_append {first second : List Instruction} {state : State}
    (meets : Meets exec accepts (first ++ second) state) :
    Meets exec accepts first state ∧
      ∀ middle, run exec first state = .next middle → Meets exec accepts second middle := by
  induction first generalizing state with
  | nil =>
      refine ⟨True.intro, ?_⟩
      rintro middle ⟨⟩
      exact meets
  | cons instruction first ih =>
      constructor
      · exact ⟨meets.1, fun middle step => (ih (meets.2 middle step)).1⟩
      · intro middle runs
        unfold run at runs
        cases step : exec instruction state with
        | next between =>
            rw [step] at runs
            exact (ih (meets.2 between step)).2 middle runs
        | jump target between =>
            rw [step] at runs
            cases runs
        | ends failure =>
            rw [step] at runs
            cases runs

def MeetsAfter (program : Nat → List Instruction) : Nat → Nat → State → Prop
  | 0, _, _ => True
  | count + 1, block, state =>
      Meets exec accepts (program block) state ∧
        (∀ middle, run exec (program block) state = .next middle →
          MeetsAfter program count (block + 1) middle) ∧
        ∀ target middle, run exec (program block) state = .jump target middle →
          MeetsAfter program count target middle

/-! ### Replacing -/

variable (rule : List Instruction → List Instruction → Prop)

inductive Replaces : List Instruction → List Instruction → Prop
  | same (code : List Instruction) : Replaces code code
  | rule {plain other : List Instruction} (applies : rule plain other) : Replaces plain other
  | append {first second firstOther secondOther : List Instruction}
      (left : Replaces first firstOther) (right : Replaces second secondOther) :
      Replaces (first ++ second) (firstOther ++ secondOther)

def Sound : Prop :=
  ∀ {plain other : List Instruction}, rule plain other →
    ∀ {state : State}, Meets exec accepts other state →
      run exec plain state = run exec other state

variable {exec accepts rule}

theorem Replaces.run_eq (sound : Sound exec accepts rule) {plain other : List Instruction}
    (replaces : Replaces rule plain other) {state : State}
    (meets : Meets exec accepts other state) : run exec plain state = run exec other state := by
  induction replaces generalizing state with
  | same code => rfl
  | rule applies => exact sound applies meets
  | append left right leftIh rightIh =>
      obtain ⟨first, second⟩ := meets_append exec accepts meets
      rw [run_append, run_append, leftIh first]
      cases runs : run exec _ state with
      | next middle => exact rightIh (second middle runs)
      | jump target middle => rfl
      | ends failure => rfl

theorem Replaces.after_eq (sound : Sound exec accepts rule)
    {program other : Nat → List Instruction}
    (replaces : ∀ block, Replaces rule (program block) (other block)) (count block : Nat)
    (state : State) (meets : MeetsAfter exec accepts other count block state) :
    after exec program count block state = after exec other count block state := by
  induction count generalizing block state with
  | zero => rfl
  | succ count ih =>
      obtain ⟨here, next, jumps⟩ := meets
      unfold after
      rw [(replaces block).run_eq sound here]
      cases runs : run exec (other block) state with
      | next middle => exact ih (block + 1) middle (next middle runs)
      | jump target middle => exact ih target middle (jumps target middle runs)
      | ends failure => rfl

end

end Foundation.Blocks
