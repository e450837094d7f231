/-
The table refines a finite map from interned keys to values.

Any sequence of operations on any number of tables, all starting empty, is run
beside the same operations on maps.  The runs answer alike, no probe runs for
ever, and in every state reached each table that has slots at all has a
power-of-two number of them, one of which is truly empty.
-/

import CScript.Foundation.Refinement
import CScript.Runtime.TableInvariant

namespace CScript

open Foundation

inductive TableOp where
  | set (table : Nat) (key : ObjString) (value : Value)
  | delete (table : Nat) (key : ObjString)
  | get (table : Nat) (key : ObjString)
  | findEntry (table : Nat) (key : ObjString)
  | addAll (source target : Nat)

inductive TableAnswer where
  | flag (answer : Bool)
  | value (found : Option Value)
  | entry (found : Option Entry)
  | done

def stepTables (tables : Nat → Table) : TableOp → Option ((Nat → Table) × TableAnswer)
  | .set table key value => do
      let (after, isNewKey) ← csTableSet (tables table) key value
      return (Function.update tables table after, .flag isNewKey)
  | .delete table key => do
      let (after, removed) ← csTableDelete (tables table) key
      return (Function.update tables table after, .flag removed)
  | .get table key => do
      let found ← csTableGet (tables table) key
      return (tables, .value found)
  | .findEntry table key => do
      let slot ← csTableFindEntry (tables table) key
      return (tables, .entry (slot.bind (fun index => (tables table).entries[index]?)))
  | .addAll source target => do
      let after ←
        if source = target then csTableAddAllSelf (tables target)
        else csTableAddAll (tables source) (tables target)
      return (Function.update tables target after, .done)

/-! ### The reference -/

abbrev KeyMap := ObjString → Option Value

def stepMaps (maps : Nat → KeyMap) : TableOp → (Nat → KeyMap) × TableAnswer
  | .set table key value =>
      (Function.update maps table (Function.update (maps table) key (some value)),
        .flag (maps table key).isNone)
  | .delete table key =>
      (Function.update maps table (Function.update (maps table) key none),
        .flag (maps table key).isSome)
  | .get table key => (maps, .value (maps table key))
  | .findEntry table key =>
      (maps, .entry ((maps table key).map (fun value => { key := some key, value := value })))
  | .addAll source target =>
      (Function.update maps target (fun key => (maps source key).or (maps target key)), .done)

/-! ### The refinement -/

def TablesRefine (tables : Nat → Table) (maps : Nat → KeyMap) : Prop :=
  ∀ table, (tables table).WellFormed ∧ (tables table).lookup = maps table

private theorem tablesRefine_update {tables : Nat → Table} {maps : Nat → KeyMap}
    (related : TablesRefine tables maps) {table : Nat} {after : Table} {map : KeyMap}
    (wf : after.WellFormed) (contents : after.lookup = map) :
    TablesRefine (Function.update tables table after) (Function.update maps table map) := by
  intro other
  by_cases same : other = table
  · subst other
    rw [Function.update_self, Function.update_self]
    exact ⟨wf, contents⟩
  · rw [Function.update_of_ne same, Function.update_of_ne same]
    exact related other

theorem stepTables_refines : Refinement.Refines stepTables stepMaps TablesRefine := by
  intro tables maps op related
  cases op with
  | set table key value =>
      obtain ⟨wf, contents⟩ := related table
      obtain ⟨after, ran, afterWf, afterMap⟩ := csTableSet_spec wf key value
      rw [contents] at ran afterMap
      exact ⟨_, by simp [stepTables, stepMaps, ran], tablesRefine_update related afterWf afterMap⟩
  | delete table key =>
      obtain ⟨wf, contents⟩ := related table
      obtain ⟨after, ran, afterWf, afterMap⟩ := csTableDelete_spec wf key
      rw [contents] at ran afterMap
      exact ⟨_, by simp [stepTables, stepMaps, ran], tablesRefine_update related afterWf afterMap⟩
  | get table key =>
      obtain ⟨wf, contents⟩ := related table
      refine ⟨tables, ?_, related⟩
      simp [stepTables, stepMaps, csTableGet_eq wf, contents]
  | findEntry table key =>
      obtain ⟨wf, contents⟩ := related table
      obtain ⟨answer, ran, entryEq, _⟩ := csTableFindEntry_spec wf key
      rw [contents] at entryEq
      refine ⟨tables, ?_, related⟩
      simp [stepTables, stepMaps, ran, entryEq]
  | addAll source target =>
      obtain ⟨wf, contents⟩ := related target
      by_cases same : source = target
      · subst same
        obtain ⟨after, ran, afterWf, afterMap⟩ := csTableAddAllSelf_spec wf
        refine ⟨_, by simp [stepTables, stepMaps, ran],
          tablesRefine_update related afterWf ?_⟩
        rw [afterMap, contents]
        funext key
        exact Option.or_self.symm
      · obtain ⟨sourceWf, sourceContents⟩ := related source
        obtain ⟨after, ran, afterWf, afterMap⟩ := csTableAddAll_spec sourceWf wf
        refine ⟨_, by simp [stepTables, stepMaps, same, ran],
          tablesRefine_update related afterWf ?_⟩
        funext key
        rw [afterMap, contents, sourceContents]

/-- Any sequence of table operations from `csTableInit` answers as the same
sequence on finite maps does and never gets stuck in a probe; afterwards every
table holds what its map holds, and every table with slots has a power of two of
them with a truly empty one among them. -/
theorem runTables_refines (ops : List TableOp) :
    ∃ tables,
      Refinement.run stepTables (fun _ => csTableInit) ops =
        some (tables, (Refinement.specify stepMaps (fun _ _ => none) ops).2) ∧
      (∀ table key, csTableGet (tables table) key =
        some ((Refinement.specify stepMaps (fun _ _ => none) ops).1 table key)) ∧
      (∀ table, (tables table).capacity = 0 ∨
        (∃ exponent, (tables table).capacity = 2 ^ exponent) ∧
        ∃ slot : Nat, (tables table).entries[slot]? = some Entry.empty) := by
  obtain ⟨tables, ran, related⟩ := stepTables_refines.run ops (fun _ => csTableInit)
    (fun _ _ => none) (fun _ => ⟨csTableInit_wellFormed, rfl⟩)
  refine ⟨tables, ran, ?_, ?_⟩
  · intro table key
    obtain ⟨wf, contents⟩ := related table
    rw [csTableGet_eq wf, contents]
  · intro table
    obtain ⟨wf, _⟩ := related table
    rcases wf.shape with empty | ⟨long, probed⟩
    · left
      unfold Table.capacity
      rw [empty]
      rfl
    · right
      refine ⟨probed.power, ?_⟩
      have room : (tables table).entries ≠ [] := by
        intro empty
        rw [empty] at long
        exact absurd long (by decide)
      obtain ⟨slot, free, bound⟩ := wf.exists_free room
      refine ⟨slot, ?_⟩
      unfold freeAt at free
      rw [List.getElem?_eq_getElem bound] at free ⊢
      rw [Option.any_some] at free
      exact congrArg some (Entry.eq_empty_of_isFree free)

end CScript
