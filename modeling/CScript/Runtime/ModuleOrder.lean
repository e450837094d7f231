/-
Modules run once and in order.

What holds at every moment of a session: a module that waits has its imports in front
of it, behind it in time, or on the stack of bodies; a file that is being loaded has its
imports so far on the list or done; and the module an `import()` was asked for is done,
waits, or is running inside that `import()`.
-/

import CScript.Runtime.Module
import Mathlib.Data.List.Nodup

namespace CScript.Modules

/-! ### What a run promises -/

def Event.Fits (program : Program) (earlier : List Event) : Event → Prop
  | .accepted path => .failed path ∉ earlier
  | .started path =>
      .started path ∉ earlier ∧
        ∀ other ∈ program.staticImports path, .completed other ∈ earlier
  | .answered path => .completed path ∈ earlier
  | .cleared none waiting => waiting = []
  | .cleared (some failure) waiting => ∀ path ∈ waiting, program.Needs path failure
  | .outsideList _ => False
  | .failed _ => True
  | .completed _ => True

def Orderly (program : Program) : List Event → Prop
  | [] => True
  | event :: earlier => event.Fits program earlier ∧ Orderly program earlier

/-! ### Where it keeps its promises -/

def bodies (layers : List Layer) : List String :=
  layers.filterMap Layer.body

section

variable (program : Program) (session : Session)

/-- A load meets a file that is not loaded, or a module that is being loaded, has run to
its end, or waits; not one that failed, was dropped, or is running. -/
def MeetsModule (path : String) : Prop :=
  match session.vm.modules path with
  | none => program.csReadFile path = none ∨ .failed path ∉ session.log
  | some found =>
      found.loading = true ∨ .completed path ∈ session.log ∨ path ∈ session.vm.waiting

def HasRoom (loop : ImportLoop) : Prop :=
  (loop.ok && program.csTypeCheck session.vm loop.importer &&
      (program.csCompile session.vm loop.importer).isSome) = true →
    session.vm.pending.length < CS_MODULES_MAX

/-- A module fails while only modules that need it wait, and none that an `import()`
further out was asked for. -/
def FailsAlone (layers : List Layer) (path : String) : Prop :=
  (∀ other ∈ session.vm.waiting, other ≠ path → program.Needs other path) ∧
    ∀ layer ∈ layers, ∀ target, layer.driver = .importAtRuntime target →
      target ≠ path ∧ target ∉ session.vm.waiting

def NoneWaitsForRunning : Prop :=
  ∀ path ∈ bodies session.layers, ∀ other ∈ session.vm.waiting,
    path ∉ program.staticImports other

def NoneBehind (layer : Layer) : Prop :=
  ∀ path ∈ session.vm.pending.take layer.index, session.vm.executed path = true

/-- The module an `import()` comes to has no top-level `await`, or fails alone. -/
def AwaitsAlone (layer : Layer) (layers : List Layer) : Prop :=
  ∀ path ∈ session.vm.pending[layer.index]?, ∀ module ∈ session.vm.modules path,
    module.executed = false → module.body = some { isAsync := true } →
      layer.driver ≠ .csVMRunPendingModules → FailsAlone program session layers path

def InOrder (action : Action) : Prop :=
  match session.phase, session.layers, action with
  | .loading (loop :: _) _, _, .proceed =>
      match loop.rest with
      | [] => HasRoom program session loop
      | specifier :: _ =>
          ∀ path ∈ program.csModuleResolve loop.importer specifier,
            MeetsModule program session path
  | .running, layer :: layers, .proceed =>
      NoneBehind session layer ∧ AwaitsAlone program session layer layers
  | .running, _, .importCall fromPath specifier =>
      NoneWaitsForRunning program session ∧
        ∀ path ∈ program.csModuleResolve fromPath specifier, MeetsModule program session path
  | .running, layer :: layers, .fail =>
      ∀ path ∈ layer.body, FailsAlone program session layers path
  | _, _, _ => True

end

/-! ### The registry -/

theorem mem_waiting {vm : VM} {path : String} :
    path ∈ vm.waiting ↔ path ∈ vm.pending ∧ vm.executed path = false := by
  rw [VM.waiting, List.mem_filter]
  simp

theorem executed_set_self (vm : VM) (path : String) (module : ObjModule) :
    (vm.set path module).executed path = module.executed := by
  simp [VM.executed, VM.set]

theorem executed_set_of_ne (vm : VM) {path other : String} (module : ObjModule)
    (differs : other ≠ path) : (vm.set path module).executed other = vm.executed other := by
  simp [VM.executed, VM.set, Function.update_of_ne differs]

theorem executed_set {vm : VM} {path : String} {module : ObjModule}
    (same : vm.executed path = module.executed) : (vm.set path module).executed = vm.executed := by
  funext other
  by_cases differs : other = path
  · rw [differs, executed_set_self, same]
  · exact executed_set_of_ne vm module differs

theorem executed_of_unregistered {vm : VM} {path : String} (absent : vm.modules path = none) :
    vm.executed path = false := by
  rw [VM.executed, absent]
  rfl

/-! ### What holds of the list and of the bodies -/

section

variable (program : Program)

def Done (vm : VM) (log : List Event) (path : String) : Prop :=
  .completed path ∈ log ∨ path ∈ vm.waiting

def Clear (vm : VM) (path : String) : Prop :=
  ∀ other ∈ vm.waiting, path ∉ program.staticImports other

/-- Under each `import()` nothing waits for the bodies further out, and what it was
asked for is done or runs inside it. -/
def LayersFit (done clear : String → Prop) : List String → List Layer → Prop
  | _, [] => True
  | inside, layer :: layers =>
      (match layer.driver with
        | .csVMRunPendingModules => layers = []
        | .importAtRuntime target =>
            (done target ∨ target ∈ layer.body.toList ++ inside) ∧
              ∀ path ∈ bodies layers, clear path) ∧
        LayersFit done clear (layer.body.toList ++ inside) layers

structure Core (vm : VM) (layers : List Layer) (log : List Event) : Prop where
  orderly : Orderly program log
  listed : ∀ path ∈ vm.pending, vm.modules path ≠ none
  started : ∀ path, .started path ∈ log → vm.executed path = true
  completed : ∀ path, .completed path ∈ log → vm.executed path = true ∧ .failed path ∉ log
  failed : ∀ path, .failed path ∈ log → path ∉ vm.waiting
  running : ∀ path ∈ bodies layers,
    vm.executed path = true ∧ .completed path ∉ log ∧ .failed path ∉ log
  begun : ∀ path ∈ bodies layers, .started path ∈ log
  distinct : (bodies layers).Nodup
  ordered : ∀ index path, vm.pending[index]? = some path → vm.executed path = false →
    ∀ other ∈ program.staticImports path,
      .completed other ∈ log ∨
        (other ∈ vm.pending.take index ∧ vm.executed other = false) ∨ other ∈ bodies layers
  layers : LayersFit (Done vm log) (Clear program vm) [] layers

end

section

variable {program : Program}

theorem bodies_cons (layer : Layer) (layers : List Layer) :
    bodies (layer :: layers) = layer.body.toList ++ bodies layers := by
  rw [bodies, List.filterMap_cons]
  cases layer.body with
  | none => rfl
  | some _ => rfl

theorem reached_append {done after : Prop} {target : String} {inside within : List String}
    (kept : done ∨ target ∈ inside → after ∨ target ∈ within) (own : List String) :
    done ∨ target ∈ own ++ inside → after ∨ target ∈ own ++ within := by
  simp only [List.mem_append]
  tauto

theorem LayersFit.mono {done after clear still : String → Prop} {inside within : List String}
    {layers : List Layer} (fits : LayersFit done clear inside layers)
    (targets : ∀ layer ∈ layers, ∀ target, layer.driver = .importAtRuntime target →
      done target ∨ target ∈ inside → after target ∨ target ∈ within)
    (clears : ∀ path ∈ bodies layers, clear path → still path) :
    LayersFit after still within layers := by
  induction layers generalizing inside within with
  | nil => trivial
  | cons layer layers ih =>
      obtain ⟨here, rest⟩ := fits
      have outer : ∀ path ∈ bodies layers, clear path → still path := by
        intro path member
        apply clears path
        rw [bodies_cons]
        exact List.mem_append_right _ member
      constructor
      · cases driver : layer.driver with
        | csVMRunPendingModules =>
            rw [driver] at here
            exact here
        | importAtRuntime target =>
            rw [driver] at here
            exact ⟨reached_append (targets layer List.mem_cons_self target driver) _ here.1,
              fun path member => outer path member (here.2 path member)⟩
      · refine ih rest ?_ outer
        intro other member target driver
        exact reached_append (targets other (List.mem_cons_of_mem _ member) target driver) _

/-! ### One change at a time -/

section

variable {vm : VM} {layers : List Layer} {log : List Event}

theorem Done.note {path : String} (done : Done vm log path) (event : Event) :
    Done vm (event :: log) path :=
  done.imp (List.mem_cons_of_mem _) id

theorem LayersFit.note {inside : List String}
    (fits : LayersFit (Done vm log) (Clear program vm) inside layers) (event : Event) :
    LayersFit (Done vm (event :: log)) (Clear program vm) inside layers :=
  fits.mono (fun _ _ _ _ reached => reached.imp (Done.note · event) id) (fun _ _ clear => clear)

theorem Core.congr {other : VM} (core : Core program vm layers log)
    (pending : other.pending = vm.pending) (executed : other.executed = vm.executed)
    (registered : ∀ path, vm.modules path ≠ none → other.modules path ≠ none) :
    Core program other layers log := by
  have waiting : other.waiting = vm.waiting := by rw [VM.waiting, VM.waiting, pending, executed]
  have done : Done other log = Done vm log := by
    funext path
    rw [Done, Done, waiting]
  have clear : Clear program other = Clear program vm := by
    funext path
    rw [Clear, Clear, waiting]
  exact
    { orderly := core.orderly
      listed := fun path member => registered path (core.listed path (pending ▸ member))
      started := by rw [executed]; exact core.started
      completed := by rw [executed]; exact core.completed
      failed := by rw [waiting]; exact core.failed
      running := by rw [executed]; exact core.running
      begun := core.begun
      distinct := core.distinct
      ordered := by rw [pending, executed]; exact core.ordered
      layers := by rw [done, clear]; exact core.layers }

theorem Core.set (core : Core program vm layers log) {path : String} {module : ObjModule}
    (same : vm.executed path = module.executed) : Core program (vm.set path module) layers log := by
  refine @Core.congr program vm layers log (vm.set path module) core rfl (executed_set same) ?_
  intro other there
  by_cases differs : other = path
  · rw [differs, VM.set]
    simp
  · simpa [VM.set, Function.update_of_ne differs] using there

theorem Core.note_failed (core : Core program vm layers log) {path : String}
    (idle : path ∉ vm.waiting) (unended : .completed path ∉ log)
    (still : path ∉ bodies layers) : Core program vm layers (.failed path :: log) where
  orderly := ⟨trivial, core.orderly⟩
  listed := core.listed
  started other here := core.started other (by simpa using here)
  completed other here := by
    have before : .completed other ∈ log := by simpa using here
    refine ⟨(core.completed other before).1, ?_⟩
    rintro (_ | ⟨_, earlier⟩)
    · exact unended before
    · exact (core.completed other before).2 earlier
  failed other here := by
    rcases List.mem_cons.mp here with same | earlier
    · cases same
      exact idle
    · exact core.failed other earlier
  running other here := by
    obtain ⟨executed, unended, unfailed⟩ := core.running other here
    refine ⟨executed, by simpa using unended, ?_⟩
    rintro (_ | ⟨_, earlier⟩)
    · exact still here
    · exact unfailed earlier
  begun other here := List.mem_cons_of_mem _ (core.begun other here)
  distinct := core.distinct
  ordered index other listed waits needed member := by
    rcases core.ordered index other listed waits needed member with ended | rest
    · exact .inl (List.mem_cons_of_mem _ ended)
    · exact .inr rest
  layers := core.layers.note _

theorem Core.note (core : Core program vm layers log) {event : Event}
    (fits : event.Fits program log)
    (other : ∀ path, event ≠ .started path ∧ event ≠ .completed path ∧ event ≠ .failed path) :
    Core program vm layers (event :: log) where
  orderly := ⟨fits, core.orderly⟩
  listed := core.listed
  started path here := core.started path (by simpa [(other path).1.symm] using here)
  completed path here := by
    have before : .completed path ∈ log := by simpa [(other path).2.1.symm] using here
    refine ⟨(core.completed path before).1, ?_⟩
    simpa [(other path).2.2.symm] using (core.completed path before).2
  failed path here := core.failed path (by simpa [(other path).2.2.symm] using here)
  running path here := by
    obtain ⟨executed, unended, unfailed⟩ := core.running path here
    exact ⟨executed, by simpa [(other path).2.1.symm] using unended,
      by simpa [(other path).2.2.symm] using unfailed⟩
  begun path here := List.mem_cons_of_mem _ (core.begun path here)
  distinct := core.distinct
  ordered index path listed waits needed member := by
    rcases core.ordered index path listed waits needed member with ended | rest
    · exact .inl (List.mem_cons_of_mem _ ended)
    · exact .inr rest
  layers := core.layers.note _

theorem waiting_put {importer : String} (unexecuted : vm.executed importer = false) :
    VM.waiting { vm with pending := vm.pending ++ [importer] } = vm.waiting ++ [importer] := by
  show (vm.pending ++ [importer]).filter (fun path => !vm.executed path) = _
  rw [List.filter_append, VM.waiting]
  simp [unexecuted]

theorem Core.not_done (core : Core program vm layers log) {path : String}
    (runs : path ∈ bodies layers) : ¬Done vm log path := by
  obtain ⟨executed, unended, _⟩ := core.running path runs
  rintro (ended | waits)
  · exact unended ended
  · rw [(mem_waiting.mp waits).2] at executed
    cases executed

theorem Core.put (core : Core program vm layers log) {importer : String}
    (registered : vm.modules importer ≠ none) (unexecuted : vm.executed importer = false)
    (unfailed : .failed importer ∉ log)
    (ready : ∀ other ∈ program.staticImports importer, Done vm log other) :
    Core program { vm with pending := vm.pending ++ [importer] } layers log where
  orderly := core.orderly
  listed path member := by
    rcases List.mem_append.mp member with old | new
    · exact core.listed path old
    · rw [List.mem_singleton.mp new]
      exact registered
  started := core.started
  completed := core.completed
  failed path here := by
    rw [waiting_put unexecuted, List.mem_append, not_or]
    refine ⟨core.failed path here, ?_⟩
    intro same
    rw [List.mem_singleton.mp same] at here
    exact unfailed here
  running := core.running
  begun := core.begun
  distinct := core.distinct
  ordered index path listed waits needed member := by
    dsimp only at listed
    rw [List.getElem?_append] at listed
    split at listed
    · rename_i before
      have front : (vm.pending ++ [importer]).take index = vm.pending.take index :=
        List.take_append_of_le_length (Nat.le_of_lt before)
      rw [front]
      exact core.ordered index path listed waits needed member
    · obtain ⟨last, same⟩ := List.getElem?_eq_some_iff.mp listed
      have here : index = vm.pending.length := by
        have : index - vm.pending.length < 1 := last
        omega
      have front : (vm.pending ++ [importer]).take index = vm.pending := by
        rw [here, List.take_left]
      have importing : path = importer := by
        rw [← same]
        simp
      rw [importing] at member
      rcases ready needed member with ended | waiting
      · exact .inl ended
      · rw [front]
        exact .inr (.inl (mem_waiting.mp waiting))
  layers := by
    apply core.layers.mono
    · intro _ _ target _ reached
      refine reached.imp (Or.imp id (fun waits => ?_)) id
      rw [waiting_put unexecuted]
      exact List.mem_append_left _ waits
    · intro path runs clear other waits
      rw [waiting_put unexecuted] at waits
      rcases List.mem_append.mp waits with old | new
      · exact clear other old
      · rw [List.mem_singleton.mp new]
        exact fun needed => core.not_done runs (ready path needed)

theorem mem_waiting_start {path other : String} {module : ObjModule}
    (executed : module.executed = true) :
    other ∈ (vm.set path module).waiting ↔ other ∈ vm.waiting ∧ other ≠ path := by
  rw [mem_waiting, mem_waiting]
  by_cases same : other = path
  · rw [same, executed_set_self, executed]
    simp
  · rw [executed_set_of_ne vm module same]
    simp [VM.set, same]

theorem executed_start {path other : String} {module : ObjModule} (runs : module.executed = true)
    (executed : vm.executed other = true) : (vm.set path module).executed other = true := by
  by_cases same : other = path
  · rw [same, executed_set_self, runs]
  · rw [executed_set_of_ne vm module same, executed]

theorem Core.start {layer : Layer} {path : String} {module : ObjModule}
    (core : Core program vm (layer :: layers) log) (idle : layer.body = none)
    (waits : path ∈ vm.waiting) (executed : module.executed = true)
    (ready : ∀ other ∈ program.staticImports path, .completed other ∈ log) :
    Core program (vm.set path module) ({ layer with body := some path } :: layers)
      (.started path :: log) := by
  have unexecuted := (mem_waiting.mp waits).2
  have before : bodies (layer :: layers) = bodies layers := by
    rw [bodies_cons, idle]
    rfl
  have after : bodies ({ layer with body := some path } :: layers) = path :: bodies layers := by
    rw [bodies_cons]
    rfl
  have unstarted : .started path ∉ log := by
    intro earlier
    rw [core.started path earlier] at unexecuted
    cases unexecuted
  have unended : .completed path ∉ log := by
    intro earlier
    rw [(core.completed path earlier).1] at unexecuted
    cases unexecuted
  have still : path ∉ bodies layers := by
    intro runs
    rw [(core.running path (before ▸ runs)).1] at unexecuted
    cases unexecuted
  have unfailed : .failed path ∉ log := fun earlier => core.failed path earlier waits
  exact
    { orderly := ⟨⟨unstarted, ready⟩, core.orderly⟩
      listed := by
        intro other member
        by_cases same : other = path
        · simp [VM.set, same]
        · simpa [VM.set, Function.update_of_ne same] using core.listed other member
      started := by
        intro other here
        rcases List.mem_cons.mp here with same | earlier
        · cases same
          rw [executed_set_self, executed]
        · exact executed_start executed (core.started other earlier)
      completed := by
        intro other here
        have earlier : .completed other ∈ log := by simpa using here
        exact ⟨executed_start executed (core.completed other earlier).1,
          by simpa using (core.completed other earlier).2⟩
      failed := by
        intro other here
        have earlier : .failed other ∈ log := by simpa using here
        rw [mem_waiting_start executed]
        exact fun both => core.failed other earlier both.1
      running := by
        intro other here
        rw [after] at here
        rcases List.mem_cons.mp here with rfl | outer
        · refine ⟨by rw [executed_set_self, executed], by simpa using unended,
            by simpa using unfailed⟩
        · obtain ⟨ran, others⟩ := core.running other (before ▸ outer)
          exact ⟨executed_start executed ran, by simpa using others⟩
      begun := by
        intro other here
        rw [after] at here
        rcases List.mem_cons.mp here with rfl | outer
        · exact List.mem_cons_self
        · exact List.mem_cons_of_mem _ (core.begun other (before ▸ outer))
      distinct := by
        rw [after]
        exact List.nodup_cons.mpr ⟨still, before ▸ core.distinct⟩
      ordered := by
        intro index other listed left needed member
        have differs : other ≠ path := by
          rintro rfl
          rw [executed_set_self, executed] at left
          cases left
        rw [executed_set_of_ne vm module differs] at left
        rw [after]
        by_cases here : needed = path
        · exact .inr (.inr (here ▸ List.mem_cons_self))
        · rw [executed_set_of_ne vm module here]
          rcases core.ordered index other listed left needed member with ended | waiting | runs
          · exact .inl (List.mem_cons_of_mem _ ended)
          · exact .inr (.inl waiting)
          · exact .inr (.inr (List.mem_cons_of_mem _ (before ▸ runs)))
      layers := by
        have targets : ∀ target, Done vm log target ∨ target ∈ layer.body.toList ++ [] →
            Done (vm.set path module) (.started path :: log) target ∨ target ∈ [path] := by
          intro target reached
          by_cases same : target = path
          · exact .inr (List.mem_singleton.mpr same)
          · left
            rw [idle] at reached
            rcases reached.resolve_right nofun with ended | waiting
            · exact .inl (List.mem_cons_of_mem _ ended)
            · exact .inr ((mem_waiting_start executed).mpr ⟨waiting, same⟩)
        have clears : ∀ other, Clear program vm other →
            Clear program (vm.set path module) other := by
          intro other clear third waiting
          exact clear third ((mem_waiting_start executed).mp waiting).1
        obtain ⟨here, rest⟩ := core.layers
        refine ⟨?_, rest.mono (fun _ _ target _ => targets target) (fun other _ => clears other)⟩
        cases driver : layer.driver with
        | csVMRunPendingModules =>
            rw [driver] at here
            exact here
        | importAtRuntime target =>
            rw [driver] at here
            exact ⟨targets target here.1, fun other member => clears other (here.2 other member)⟩ }

theorem Core.finish {layer : Layer} {path : String}
    (core : Core program vm (layer :: layers) log) (runs : layer.body = some path) :
    Core program vm ({ layer with index := layer.index + 1, body := none } :: layers)
      (.completed path :: log) := by
  have before : bodies (layer :: layers) = path :: bodies layers := by
    rw [bodies_cons, runs]
    rfl
  have after : bodies ({ layer with index := layer.index + 1, body := none } :: layers) =
      bodies layers := by
    rw [bodies_cons]
    rfl
  have distinct := core.distinct
  rw [before, List.nodup_cons] at distinct
  have own := core.running path (before ▸ List.mem_cons_self)
  exact
    { orderly := ⟨trivial, core.orderly⟩
      listed := core.listed
      started := fun other here => core.started other (by simpa using here)
      completed := by
        intro other here
        rcases List.mem_cons.mp here with same | earlier
        · cases same
          exact ⟨own.1, by simpa using own.2.2⟩
        · exact ⟨(core.completed other earlier).1,
            by simpa using (core.completed other earlier).2⟩
      failed := fun other here => core.failed other (by simpa using here)
      running := by
        intro other here
        rw [after] at here
        obtain ⟨executed, unended, unfailed⟩ :=
          core.running other (before ▸ List.mem_cons_of_mem _ here)
        refine ⟨executed, ?_, by simpa using unfailed⟩
        intro ended
        rcases List.mem_cons.mp ended with same | earlier
        · cases same
          exact distinct.1 here
        · exact unended earlier
      begun := by
        intro other here
        rw [after] at here
        exact List.mem_cons_of_mem _ (core.begun other (before ▸ List.mem_cons_of_mem _ here))
      distinct := after ▸ distinct.2
      ordered := by
        intro index other listed left needed member
        rw [after]
        rcases core.ordered index other listed left needed member with ended | waiting | inside
        · exact .inl (List.mem_cons_of_mem _ ended)
        · exact .inr (.inl waiting)
        · rw [before] at inside
          rcases List.mem_cons.mp inside with rfl | outer
          · exact .inl List.mem_cons_self
          · exact .inr (.inr outer)
      layers := by
        have targets : ∀ target, Done vm log target ∨ target ∈ layer.body.toList ++ [] →
            Done vm (.completed path :: log) target ∨ target ∈ ([] : List String) := by
          intro target reached
          left
          rcases reached with done | inside
          · exact done.note _
          · rw [runs, List.append_nil] at inside
            rw [List.mem_singleton.mp inside]
            exact .inl List.mem_cons_self
        obtain ⟨here, rest⟩ := core.layers
        refine ⟨?_, rest.mono (fun _ _ target _ => targets target) (fun _ _ clear => clear)⟩
        cases driver : layer.driver with
        | csVMRunPendingModules =>
            rw [driver] at here
            exact here
        | importAtRuntime target =>
            rw [driver] at here
            exact ⟨targets target here.1, here.2⟩ }

theorem Core.emptied {other : VM} {rest : List Layer} (core : Core program vm layers log)
    (empty : other.pending = [])
    (executed : ∀ path, vm.executed path = true → other.executed path = true)
    (kept : (bodies rest).Sublist (bodies layers))
    (layersFit : LayersFit (fun path => .completed path ∈ log) (fun _ => True) [] rest) :
    Core program other rest log := by
  have nobody : other.waiting = [] := by rw [VM.waiting, empty, List.filter_nil]
  exact
    { orderly := core.orderly
      listed := by
        rw [empty]
        exact nofun
      started := fun path here => executed path (core.started path here)
      completed := fun path here =>
        ⟨executed path (core.completed path here).1, (core.completed path here).2⟩
      failed := by
        rw [nobody]
        exact nofun
      running := fun path here =>
        ⟨executed path (core.running path (kept.subset here)).1,
          (core.running path (kept.subset here)).2⟩
      begun := fun path here => core.begun path (kept.subset here)
      distinct := core.distinct.sublist kept
      ordered := by
        rw [empty]
        exact nofun
      layers := by
        apply layersFit.mono
        · exact fun _ _ _ _ reached => reached.imp .inl id
        · intro path _ _
          rw [Clear, nobody]
          exact nofun }

theorem Core.push {layer : Layer} (core : Core program vm layers log) (idle : layer.body = none)
    (fits : LayersFit (Done vm log) (Clear program vm) [] (layer :: layers)) :
    Core program vm (layer :: layers) log := by
  have same : bodies (layer :: layers) = bodies layers := by
    rw [bodies_cons, idle]
    rfl
  exact
    { core with
      running := same ▸ core.running
      begun := same ▸ core.begun
      distinct := same ▸ core.distinct
      ordered := same ▸ core.ordered
      layers := fits }

theorem Core.unregistered (core : Core program vm layers log) {path : String}
    (absent : vm.modules path = none) :
    path ∉ vm.pending ∧ .completed path ∉ log ∧ path ∉ bodies layers := by
  have unexecuted := executed_of_unregistered absent
  refine ⟨fun listed => core.listed path listed absent, ?_, ?_⟩
  · intro ended
    rw [(core.completed path ended).1] at unexecuted
    cases unexecuted
  · intro runs
    rw [(core.running path runs).1] at unexecuted
    cases unexecuted

end

/-! ### What holds of the files that are being loaded -/

section

variable (program : Program)

def Imported (done : String → Prop) (loop : ImportLoop) (before : List String) : Prop :=
  loop.ok = true → ∀ specifier ∈ before, ∃ path,
    program.csModuleResolve loop.importer specifier = some path ∧ done path

/-- Each file that is being loaded is what the one further out imports; the path is the
module that is being loaded now. -/
inductive LoopsFit (done : String → Prop) (asked : Option String) :
    Option String → List ImportLoop → Prop where
  | asked {path : String} (same : ∀ target ∈ asked, path = target) :
      LoopsFit done asked (some path) []
  | flight {path specifier : String} {loop : ImportLoop} {loops : List ImportLoop}
      {before : List String}
      (reads : program.csReadFile loop.importer =
        some { imports := some (before ++ specifier :: loop.rest) })
      (resolves : program.csModuleResolve loop.importer specifier = some path)
      (imported : Imported program done loop before)
      (outer : LoopsFit done asked (some loop.importer) loops) :
      LoopsFit done asked (some path) (loop :: loops)
  | between {loop : ImportLoop} {loops : List ImportLoop} {before : List String}
      (reads : program.csReadFile loop.importer =
        some { imports := some (before ++ loop.rest) })
      (imported : Imported program done loop before)
      (outer : LoopsFit done asked (some loop.importer) loops) :
      LoopsFit done asked none (loop :: loops)

structure Fresh (vm : VM) (log : List Event) (path : String) : Prop where
  registered : vm.modules path ≠ none
  unexecuted : vm.executed path = false
  unlisted : path ∉ vm.pending
  unfailed : .failed path ∉ log

structure Loading (vm : VM) (layers : List Layer) (log : List Event) (asked flight : Option String)
    (loops : List ImportLoop) : Prop where
  fits : LoopsFit program (Done vm log) asked flight loops
  fresh : ∀ loop ∈ loops, Fresh vm log loop.importer
  distinct : (loops.map ImportLoop.importer).Nodup
  clear : ∀ path ∈ bodies layers, Clear program vm path
  entry : asked = none → layers = []

structure Settled (session : Session) : Prop where
  core : Core program session.vm session.layers session.log
  loading : ∀ loops asked, session.phase = .loading loops asked →
    Loading program session.vm session.layers session.log asked none loops

end

section

variable {vm : VM} {layers : List Layer} {log : List Event} {asked flight : Option String}
  {loops : List ImportLoop}

theorem LoopsFit.mono {done after : String → Prop} (fits : LoopsFit program done asked flight loops)
    (more : ∀ path, done path → after path) : LoopsFit program after asked flight loops := by
  have imported {loop : ImportLoop} {before : List String}
      (all : Imported program done loop before) : Imported program after loop before := by
    intro ok specifier member
    obtain ⟨path, resolves, done⟩ := all ok specifier member
    exact ⟨path, resolves, more path done⟩
  induction fits with
  | asked same => exact .asked same
  | flight reads resolves all _ ih => exact .flight reads resolves (imported all) ih
  | between reads all _ ih => exact .between reads (imported all) ih

theorem Loading.note (loading : Loading program vm layers log asked flight loops) {event : Event}
    (other : ∀ loop ∈ loops, event ≠ .failed loop.importer) :
    Loading program vm layers (event :: log) asked flight loops where
  fits := loading.fits.mono (fun _ done => done.note event)
  fresh loop member :=
    { loading.fresh loop member with
      unfailed := by
        simpa [(other loop member).symm] using (loading.fresh loop member).unfailed }
  distinct := loading.distinct
  clear := loading.clear
  entry := loading.entry

theorem Loading.set (loading : Loading program vm layers log asked flight loops) {path : String}
    {module : ObjModule} (same : vm.executed path = module.executed) :
    Loading program (vm.set path module) layers log asked flight loops := by
  have waiting : (vm.set path module).waiting = vm.waiting := by
    rw [VM.waiting, VM.waiting, executed_set same]
    rfl
  have done : Done (vm.set path module) log = Done vm log := by
    funext other
    rw [Done, Done, waiting]
  exact
    { fits := done ▸ loading.fits
      fresh := fun loop member =>
        { registered := by
            by_cases differs : loop.importer = path
            · simp [VM.set, differs]
            · simpa [VM.set, Function.update_of_ne differs] using
                (loading.fresh loop member).registered
          unexecuted := by
            rw [executed_set same]
            exact (loading.fresh loop member).unexecuted
          unlisted := (loading.fresh loop member).unlisted
          unfailed := (loading.fresh loop member).unfailed }
      distinct := loading.distinct
      clear := fun other runs => by
        rw [Clear, waiting]
        exact loading.clear other runs
      entry := loading.entry }

theorem returned_settled {session : Session} {path : String} {loaded : Bool}
    (core : Core program session.vm session.layers session.log)
    (loading : Loading program session.vm session.layers session.log asked (some path) loops)
    (answer : loaded = true → Done session.vm session.log path) :
    Settled program (session.returned loops asked loaded) := by
  cases loading.fits with
  | @flight _ specifier loop loops before reads resolves imported outer =>
      refine ⟨core, ?_⟩
      intro _ _ same
      cases same
      have whole : before ++ specifier :: loop.rest = (before ++ [specifier]) ++ loop.rest := by
        rw [List.append_assoc]
        rfl
      refine
        { fits := .between (whole ▸ reads) ?_ outer
          fresh := ?_
          distinct := loading.distinct
          clear := loading.clear
          entry := loading.entry }
      · intro ok other member
        obtain ⟨before_, loaded_⟩ := Bool.and_eq_true_iff.mp ok
        rcases List.mem_append.mp member with earlier | now
        · exact imported before_ other earlier
        · rw [List.mem_singleton.mp now]
          exact ⟨path, resolves, answer loaded_⟩
      · intro other member
        rcases List.mem_cons.mp member with rfl | outer_
        · exact loading.fresh loop List.mem_cons_self
        · exact loading.fresh other (List.mem_cons_of_mem _ outer_)
  | asked same =>
      cases asked with
      | none =>
          cases loaded with
          | false => exact ⟨core, nofun⟩
          | true =>
              refine ⟨?_, nofun⟩
              have empty := loading.entry rfl
              have alone : Core program session.vm [] session.log := empty ▸ core
              exact alone.push rfl ⟨rfl, trivial⟩
      | some target =>
          cases loaded with
          | false => exact ⟨core, nofun⟩
          | true =>
              refine ⟨?_, nofun⟩
              have here : path = target := same target rfl
              have done : Done session.vm session.log target := here ▸ answer rfl
              exact core.push rfl ⟨⟨.inl done, loading.clear⟩, core.layers⟩

end

end

end CScript.Modules
