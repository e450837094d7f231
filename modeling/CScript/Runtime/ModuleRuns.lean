/-
Every step of a session keeps its modules in order, where it meets what it has to.
-/

import CScript.Runtime.ModuleOrder

namespace CScript.Modules

section

variable {program : Program} {session : Session} {loops : List ImportLoop}
  {asked : Option String}

/-! ### Steps of the loader -/

theorem Core.note_absent {vm : VM} {layers : List Layer} {log : List Event} {path : String}
    (core : Core program vm layers log) (absent : vm.modules path = none) :
    Core program vm layers (.failed path :: log) := by
  obtain ⟨unlisted, unended, still⟩ := core.unregistered absent
  exact core.note_failed (fun waits => unlisted (mem_waiting.mp waits).1) unended still

theorem Loading.note_absent {vm : VM} {layers : List Layer} {log : List Event} {path : String}
    {flight : Option String} (loading : Loading program vm layers log asked flight loops)
    (absent : vm.modules path = none) :
    Loading program vm layers (.failed path :: log) asked flight loops := by
  apply loading.note
  rintro loop member same
  cases same
  exact (loading.fresh loop member).registered absent

theorem found_settled {path : String} {found : ObjModule}
    (core : Core program session.vm session.layers session.log)
    (loading : Loading program session.vm session.layers session.log asked (some path) loops)
    (done : found.loading = true ∨ Done session.vm session.log path) :
    Settled program
      (if found.loading then session.returned loops asked false
        else (session.note (.accepted path)).returned loops asked true) := by
  by_cases cycle : found.loading = true
  · rw [if_pos cycle]
    exact returned_settled core loading nofun
  · rw [if_neg cycle]
    have ready := done.resolve_left cycle
    have unfailed : .failed path ∉ session.log := by
      rcases ready with ended | waits
      · exact (core.completed path ended).2
      · exact fun failed => core.failed path failed waits
    exact returned_settled (core.note unfailed (fun _ => ⟨nofun, nofun, nofun⟩))
      (loading.note (fun _ _ => nofun)) (fun _ => ready.note _)

theorem begun_settled {path : String} {imports : List String}
    (core : Core program session.vm session.layers session.log)
    (loading : Loading program session.vm session.layers session.log asked (some path) loops)
    (absent : session.vm.modules path = none)
    (reads : program.csReadFile path = some { imports := some imports })
    (unfailed : .failed path ∉ session.log) :
    Settled program
      { session.set path { loading := true, executed := false, body := none } with
        phase := .loading ({ importer := path, rest := imports, ok := true } :: loops) asked } := by
  have unexecuted := executed_of_unregistered absent
  have same : session.vm.executed path =
      ({ loading := true, executed := false, body := none } : ObjModule).executed := unexecuted
  refine ⟨core.set same, ?_⟩
  intro _ _ phase
  cases phase
  have before := loading.set same
  exact
    { fits := @LoopsFit.between _ _ _ _ _ [] reads nofun before.fits
      fresh := by
        intro loop member
        rcases List.mem_cons.mp member with rfl | outer
        · refine ⟨?_, ?_, (core.unregistered absent).1, unfailed⟩
          · simp [Session.set, VM.set]
          · show (session.vm.set path _).executed path = false
            rw [executed_set_self]
        · exact before.fresh loop outer
      distinct := by
        rw [List.map_cons, List.nodup_cons]
        refine ⟨?_, loading.distinct⟩
        intro member
        obtain ⟨loop, outer, same⟩ := List.mem_map.mp member
        exact (loading.fresh loop outer).registered (same ▸ absent)
      clear := before.clear
      entry := loading.entry }

theorem loadResolved_settled {path : String}
    (core : Core program session.vm session.layers session.log)
    (loading : Loading program session.vm session.layers session.log asked (some path) loops)
    (meets : MeetsModule program session path) :
    Settled program (csModuleLoadResolved program session loops asked path) := by
  unfold csModuleLoadResolved
  unfold MeetsModule at meets
  cases registered : session.vm.modules path with
  | some found =>
      rw [registered] at meets
      exact found_settled core loading meets
  | none =>
      rw [registered] at meets
      dsimp only at meets ⊢
      have absent := core.note_absent registered
      have others := loading.note_absent registered
      cases reads : program.csReadFile path with
      | none => exact returned_settled absent others nofun
      | some source =>
          dsimp only
          split
          · exact returned_settled absent others nofun
          · obtain ⟨imports⟩ := source
            cases imports with
            | none =>
                have same : session.vm.executed path =
                    ({ loading := false, executed := false, body := none } :
                      ObjModule).executed := executed_of_unregistered registered
                exact returned_settled (absent.set same) (others.set same) nofun
            | some imports =>
                have unfailed := meets.resolve_left (by rw [reads]; nofun)
                exact begun_settled core loading registered reads unfailed

theorem rejected_settled {importer : String}
    (core : Core program session.vm session.layers session.log)
    (loading : Loading program session.vm session.layers session.log asked (some importer) loops)
    (fresh : Fresh session.vm session.log importer)
    (elsewhere : ∀ loop ∈ loops, loop.importer ≠ importer) :
    Settled program
      (((session.set importer { loading := false, executed := false, body := none }).note
        (.failed importer)).returned loops asked false) := by
  have same : session.vm.executed importer =
      ({ loading := false, executed := false, body := none } : ObjModule).executed :=
    fresh.unexecuted
  have unended : .completed importer ∉ session.log := by
    intro ended
    have executed := (core.completed importer ended).1
    rw [fresh.unexecuted] at executed
    cases executed
  have still : importer ∉ bodies session.layers := by
    intro runs
    have executed := (core.running importer runs).1
    rw [fresh.unexecuted] at executed
    cases executed
  have failed := core.note_failed (fun waits => fresh.unlisted (mem_waiting.mp waits).1)
    unended still
  have others : Loading program session.vm session.layers (.failed importer :: session.log)
      asked (some importer) loops := by
    apply loading.note
    rintro loop member wrong
    cases wrong
    exact elsewhere loop member rfl
  exact returned_settled (failed.set same) (others.set same) nofun

theorem compiled_settled {importer : String} {body : Body}
    (core : Core program session.vm session.layers session.log)
    (loading : Loading program session.vm session.layers session.log asked (some importer) loops)
    (fresh : Fresh session.vm session.log importer)
    (elsewhere : ∀ loop ∈ loops, loop.importer ≠ importer)
    (ready : ∀ other ∈ program.staticImports importer, Done session.vm session.log other) :
    let vm := session.vm.set importer { loading := false, executed := false, body := some body }
    Settled program
      (({ session with vm := { vm with pending := vm.pending ++ [importer] } }.note
        (.accepted importer)).returned loops asked true) := by
  intro vm
  have same : session.vm.executed importer =
      ({ loading := false, executed := false, body := some body } : ObjModule).executed :=
    fresh.unexecuted
  have unexecuted : vm.executed importer = false := by
    rw [executed_set_self]
  have done : Done vm session.log = Done session.vm session.log := by
    funext other
    show (_ ∨ other ∈ (session.vm.set importer _).waiting) = _
    rw [VM.waiting, executed_set same]
    rfl
  have settled := core.set same
  have put := settled.put (by simp [VM.set]) unexecuted fresh.unfailed (done ▸ ready)
  have more : ∀ path, Done vm session.log path →
      Done { vm with pending := vm.pending ++ [importer] } session.log path := by
    intro path reached
    refine reached.imp id (fun waits => ?_)
    rw [waiting_put unexecuted]
    exact List.mem_append_left _ waits
  have others := loading.set same
  have listed : Loading program { vm with pending := vm.pending ++ [importer] } session.layers
      session.log asked (some importer) loops :=
    { fits := others.fits.mono more
      fresh := fun loop member =>
        { others.fresh loop member with
          unlisted := by
            intro wrong
            rcases List.mem_append.mp wrong with old | new
            · exact (others.fresh loop member).unlisted old
            · exact elsewhere loop member (List.mem_singleton.mp new) }
      distinct := others.distinct
      clear := by
        intro path runs other waits
        rw [waiting_put unexecuted] at waits
        rcases List.mem_append.mp waits with old | new
        · exact others.clear path runs other old
        · rw [List.mem_singleton.mp new]
          exact fun needed => core.not_done runs (ready path needed)
      entry := others.entry }
  refine returned_settled (put.note fresh.unfailed (fun _ => by simp))
    (listed.note (fun _ _ => by simp)) (fun _ => ?_)
  refine .inr ?_
  show importer ∈ VM.waiting { vm with pending := vm.pending ++ [importer] }
  rw [waiting_put unexecuted]
  exact List.mem_append_right _ (List.mem_singleton_self _)

theorem mem_staticImports {importer other : String} {imports : List String}
    (reads : program.csReadFile importer = some { imports := some imports })
    (member : other ∈ program.staticImports importer) :
    ∃ specifier ∈ imports, program.csModuleResolve importer specifier = some other := by
  rw [Program.staticImports, reads] at member
  exact List.mem_filterMap.mp member

theorem importsLoaded_settled {loop : ImportLoop} (last : loop.rest = [])
    (core : Core program session.vm session.layers session.log)
    (loading : Loading program session.vm session.layers session.log asked none (loop :: loops))
    (room : HasRoom program session loop) :
    Settled program (importsLoaded program session loop.importer loop.ok loops asked) := by
  have fresh := loading.fresh loop List.mem_cons_self
  have distinct := List.nodup_cons.mp loading.distinct
  have elsewhere : ∀ other ∈ loops, other.importer ≠ loop.importer := by
    intro other member same
    exact distinct.1 (List.mem_map.mpr ⟨other, member, same⟩)
  cases loading.fits with
  | @between _ _ before reads imported outer =>
      rw [last, List.append_nil] at reads
      have others : Loading program session.vm session.layers session.log asked
          (some loop.importer) loops :=
        { fits := outer
          fresh := fun other member => loading.fresh other (List.mem_cons_of_mem _ member)
          distinct := distinct.2
          clear := loading.clear
          entry := loading.entry }
      unfold importsLoaded
      dsimp only
      by_cases checks : (loop.ok && program.csTypeCheck session.vm loop.importer) = true
      · rw [if_pos checks]
        cases compiled : program.csCompile session.vm loop.importer with
        | none => exact rejected_settled core others fresh elsewhere
        | some body =>
            have fits : session.vm.pending.length < CS_MODULES_MAX := by
              apply room
              rw [checks, compiled]
              rfl
            have accepted : (if (session.set loop.importer
                { loading := false, executed := false, body := some body }).vm.pending.length <
                  CS_MODULES_MAX then Event.accepted loop.importer
                else .outsideList loop.importer) = .accepted loop.importer := if_pos fits
            have ready : ∀ other ∈ program.staticImports loop.importer,
                Done session.vm session.log other := by
              intro other member
              obtain ⟨specifier, imports, resolves⟩ := mem_staticImports reads member
              obtain ⟨path, same, done⟩ :=
                imported (Bool.and_eq_true_iff.mp checks).1 specifier imports
              rw [resolves] at same
              cases same
              exact done
            have settled := @compiled_settled program session loops asked loop.importer body
              core others fresh elsewhere ready
            dsimp only at settled ⊢
            rw [accepted]
            exact settled
      · rw [if_neg checks]
        exact rejected_settled core others fresh elsewhere

theorem loadImports_settled {loop : ImportLoop}
    (core : Core program session.vm session.layers session.log)
    (loading : Loading program session.vm session.layers session.log asked none (loop :: loops))
    (room : loop.rest = [] → HasRoom program session loop)
    (meets : ∀ specifier rest, loop.rest = specifier :: rest →
      ∀ path ∈ program.csModuleResolve loop.importer specifier,
        MeetsModule program session path) :
    Settled program (csModuleLoadImports program session loop loops asked) := by
  unfold csModuleLoadImports
  cases left : loop.rest with
  | nil => exact importsLoaded_settled left core loading (room left)
  | cons specifier rest =>
      cases loading.fits with
      | @between _ _ before reads imported outer =>
          rw [left] at reads
          have fresh : ∀ ok, ∀ other ∈ { loop with rest := rest, ok := ok } :: loops,
              Fresh session.vm session.log other.importer := by
            intro ok other member
            rcases List.mem_cons.mp member with rfl | later
            · exact loading.fresh loop List.mem_cons_self
            · exact loading.fresh other (List.mem_cons_of_mem _ later)
          dsimp only
          cases resolves : program.csModuleResolve loop.importer specifier with
          | none =>
              refine ⟨core, ?_⟩
              intro _ _ phase
              cases phase
              have whole : before ++ specifier :: rest = (before ++ [specifier]) ++ rest := by
                rw [List.append_assoc]
                rfl
              exact
                { fits := .between (whole ▸ reads) nofun outer
                  fresh := fresh false
                  distinct := loading.distinct
                  clear := loading.clear
                  entry := loading.entry }
          | some path =>
              refine loadResolved_settled core ?_ (meets specifier rest left path resolves)
              exact
                { fits := .flight reads resolves imported outer
                  fresh := fresh loop.ok
                  distinct := loading.distinct
                  clear := loading.clear
                  entry := loading.entry }

/-! ### Steps of the loops over the list -/

theorem Settled.of_running {after : Session}
    (core : Core program after.vm after.layers after.log)
    (running : ∀ loops asked, after.phase ≠ .loading loops asked) : Settled program after :=
  ⟨core, fun loops asked phase => absurd phase (running loops asked)⟩

theorem conclude_settled {layer : Layer} {layers : List Layer}
    (core : Core program session.vm (layer :: layers) session.log) (idle : layer.body = none)
    (running : ∀ loops asked, session.phase ≠ .loading loops asked)
    (none_ : session.vm.waiting = []) :
    Settled program (session.conclude program layer.driver layers) := by
  have layersFit := core.layers
  have ended : ∀ target, Done session.vm session.log target → .completed target ∈ session.log := by
    rintro target (done | waits)
    · exact done
    · rw [none_] at waits
      cases waits
  have rest : LayersFit (fun path => .completed path ∈ session.log) (fun _ => True) [] layers := by
    have inner := layersFit.2
    rw [idle] at inner
    exact inner.mono (fun _ _ target _ reached => reached.imp (ended target) id)
      (fun _ _ _ => trivial)
  have same : bodies (layer :: layers) = bodies layers := by
    rw [bodies_cons, idle]
    rfl
  have emptied : Core program { session.vm with pending := [] } layers session.log :=
    core.emptied rfl (fun _ executed => executed) (same ▸ List.Sublist.refl _) rest
  have cleared : Core program { session.vm with pending := [] } layers
      (.cleared none session.vm.waiting :: session.log) :=
    emptied.note none_ (fun _ => ⟨nofun, nofun, nofun⟩)
  unfold Session.conclude
  cases driver : layer.driver with
  | csVMRunPendingModules => exact .of_running cleared running
  | importAtRuntime target =>
      dsimp only
      split
      · have here := layersFit.1
        rw [driver, idle] at here
        have completed := ended target (here.1.resolve_right nofun)
        exact .of_running (cleared.note (List.mem_cons_of_mem _ completed)
          (fun _ => ⟨nofun, nofun, nofun⟩)) running
      · exact .of_running cleared running

theorem abandon_settled {layer : Layer} {layers : List Layer} {path : String} {vm : VM}
    (core : Core program vm (layer :: layers) session.log)
    (executed : ∀ other, vm.executed other = true → session.vm.executed other = true)
    (unended : .completed path ∉ session.log) (still : path ∉ bodies layers)
    (own : ∀ other ∈ layer.body, other = path)
    (needs : ∀ other ∈ session.vm.waiting, program.Needs other path)
    (targets : ∀ outer ∈ layers, ∀ target, outer.driver = .importAtRuntime target →
      target ≠ path ∧ target ∉ vm.waiting)
    (running : session.phase = .running) :
    Settled program (session.abandon layer.driver layers path) := by
  have rest : LayersFit (fun other => .completed other ∈ session.log) (fun _ => True) []
      layers := by
    apply core.layers.2.mono
    · intro outer member target driver reached
      obtain ⟨other, unlisted⟩ := targets outer member target driver
      rcases reached with (ended | waits) | inside
      · exact .inl ended
      · exact absurd waits unlisted
      · rw [List.append_nil] at inside
        exact absurd (own target (by simpa using inside)) other
    · exact fun _ _ _ => trivial
  have kept : (bodies layers).Sublist (bodies (layer :: layers)) := by
    rw [bodies_cons]
    exact List.sublist_append_right _ _
  have emptied : Core program { session.vm with pending := [] } layers session.log :=
    core.emptied rfl executed kept rest
  have failed := emptied.note_failed nofun unended still
  have cleared : Core program { session.vm with pending := [] } layers
      (.cleared (some path) session.vm.waiting :: .failed path :: session.log) :=
    failed.note needs (fun _ => ⟨nofun, nofun, nofun⟩)
  unfold Session.abandon
  cases layer.driver with
  | csVMRunPendingModules => exact .of_running cleared nofun
  | importAtRuntime target =>
      refine .of_running cleared ?_
      intro loops asked phase
      have same : session.phase = .loading loops asked := phase
      rw [running] at same
      cases same

/-- The imports of the next module have run to their end: none is on the list in front of
it, and none is running further out. -/
theorem imports_completed {layer : Layer} {layers : List Layer} {path : String}
    (core : Core program session.vm (layer :: layers) session.log) (idle : layer.body = none)
    (behind : NoneBehind session layer) (listed : session.vm.pending[layer.index]? = some path)
    (waits : path ∈ session.vm.waiting) :
    ∀ other ∈ program.staticImports path, .completed other ∈ session.log := by
  intro other needed
  have unexecuted := (mem_waiting.mp waits).2
  rcases core.ordered layer.index path listed unexecuted other needed with ended | front | runs
  · exact ended
  · have executed := behind other front.1
    rw [front.2] at executed
    cases executed
  · rw [bodies_cons, idle] at runs
    have further : other ∈ bodies layers := runs
    have here := core.layers.1
    cases driver : layer.driver with
    | csVMRunPendingModules =>
        rw [driver] at here
        have alone : layers = [] := here
        rw [alone] at further
        cases further
    | importAtRuntime target =>
        rw [driver] at here
        exact absurd needed (here.2 other further path waits)

theorem runPending_settled {layer : Layer} {layers : List Layer} {next : Session}
    (core : Core program session.vm (layer :: layers) session.log) (idle : layer.body = none)
    (running : session.phase = .running) (behind : NoneBehind session layer)
    (awaits : AwaitsAlone program session layer layers)
    (stepped : runPending program session layer layers = some next) : Settled program next := by
  have quiet : ∀ loops asked, session.phase ≠ .loading loops asked := by
    intro loops asked
    rw [running]
    simp
  unfold runPending at stepped
  cases listed : session.vm.pending[layer.index]? with
  | none =>
      rw [listed] at stepped
      cases stepped
      apply conclude_settled core idle quiet
      have whole : session.vm.pending.take layer.index = session.vm.pending :=
        List.take_of_length_le (List.getElem?_eq_none_iff.mp listed)
      rw [List.eq_nil_iff_forall_not_mem]
      intro path waits
      obtain ⟨member, unexecuted⟩ := mem_waiting.mp waits
      rw [behind path (whole.symm ▸ member)] at unexecuted
      cases unexecuted
  | some path =>
      rw [listed] at stepped
      dsimp only at stepped
      cases registered : session.vm.modules path with
      | none =>
          rw [registered] at stepped
          cases stepped
      | some module =>
          rw [registered] at stepped
          have flag : session.vm.executed path = module.executed := by
            rw [VM.executed, registered]
            rfl
          cases executed : module.executed with
          | true =>
              simp only [executed, if_true, Option.bind_eq_bind, Option.bind_some,
                Option.pure_def, Option.some.injEq] at stepped
              subst stepped
              exact .of_running { core with layers := core.layers } quiet
          | false =>
              have waits : path ∈ session.vm.waiting :=
                mem_waiting.mpr ⟨List.mem_of_getElem? listed, flag.trans executed⟩
              cases compiled : module.body with
              | none =>
                  rw [Option.bind_eq_bind, Option.bind_some, executed, compiled] at stepped
                  cases stepped
              | some body =>
                  simp only [executed, compiled, Option.bind_eq_bind, Option.bind_some,
                    Bool.false_eq_true, if_false] at stepped
                  split at stepped
                  · rename_i refused
                    cases stepped
                    obtain ⟨import_, async⟩ := Bool.and_eq_true_iff.mp refused
                    have awaiting : module.body = some { isAsync := true } := by
                      rw [compiled]
                      cases body
                      cases async
                      rfl
                    obtain ⟨needs, targets⟩ := awaits path (by rw [listed]; rfl) module
                      (by rw [registered]; rfl) executed awaiting (of_decide_eq_true import_)
                    have unended : .completed path ∉ session.log := by
                      intro ended
                      have ran := (core.completed path ended).1
                      rw [flag, executed] at ran
                      cases ran
                    have still : path ∉ bodies layers := by
                      intro runs
                      have member : path ∈ bodies (layer :: layers) := by
                        rw [bodies_cons]
                        exact List.mem_append_right _ runs
                      have ran := (core.running path member).1
                      rw [flag, executed] at ran
                      cases ran
                    refine @abandon_settled program _ layer layers path session.vm core ?_
                      unended still (by rw [idle]; simp) ?_ targets running
                    · exact fun other => executed_start rfl
                    · intro other left
                      have both := (mem_waiting_start (rfl : ({ module with
                        executed := true, body := none } : ObjModule).executed = true)).mp left
                      exact needs other both.1 both.2
                  · cases stepped
                    exact .of_running (core.start idle waits rfl
                      (imports_completed core idle behind listed waits)) quiet

/-! ### Sessions -/

theorem asked_settled {path : String}
    (core : Core program session.vm session.layers session.log)
    (none_ : NoneWaitsForRunning program session) (meets : MeetsModule program session path) :
    Settled program (csModuleLoadResolved program session [] (some path) path) := by
  refine loadResolved_settled core ?_ meets
  exact
    { fits := .asked (by rintro _ ⟨⟩; rfl)
      fresh := nofun
      distinct := List.nodup_nil
      clear := none_
      entry := nofun }

theorem completed_of_started {log : List Event} (orderly : Orderly program log) {path : String}
    (started : .started path ∈ log) :
    ∀ other ∈ program.staticImports path, .completed other ∈ log := by
  induction log with
  | nil => cases started
  | cons event earlier ih =>
      intro other needed
      rcases List.mem_cons.mp started with rfl | before
      · exact List.mem_cons_of_mem _ (orderly.1.2 other needed)
      · exact List.mem_cons_of_mem _ (ih orderly.2 before other needed)

theorem importNamespace_settled {path : String} {next : Session}
    (settled : Settled program session) (running : session.phase = .running)
    (stepped : step program session (.importNamespace path) = some next) :
    Settled program next := by
  obtain ⟨vm, phase, layers, log⟩ := session
  cases running
  cases layers with
  | nil => cases stepped
  | cons layer layers =>
      unfold step at stepped
      dsimp only at stepped
      split at stepped
      · rename_i imports
        obtain ⟨module, runs, needed⟩ := (Option.any_eq_true _ _).mp imports
        have body : layer.body = some module := runs
        have member : module ∈ bodies (layer :: layers) := by
          rw [bodies_cons, body]
          exact List.mem_append_left _ (List.mem_singleton_self _)
        have core := settled.core
        have completed := completed_of_started core.orderly (core.begun module member) path
          (of_decide_eq_true needed)
        cases stepped
        split
        · exact .of_running (core.note completed (fun _ => ⟨nofun, nofun, nofun⟩)) nofun
        · exact settled
      · cases stepped

theorem step_settled {action : Action} {next : Session} (settled : Settled program session)
    (meets : InOrder program session action)
    (stepped : step program session action = some next) : Settled program next := by
  have core := settled.core
  obtain ⟨vm, phase, layers, log⟩ := session
  cases phase with
  | finished => cases action <;> cases layers <;> cases stepped
  | loading loops asked =>
      cases loops with
      | nil => cases action <;> cases stepped
      | cons loop loops =>
          have loading := settled.loading (loop :: loops) asked rfl
          cases action with
          | proceed =>
              cases stepped
              refine loadImports_settled core loading ?_ ?_
              · intro last
                unfold InOrder at meets
                dsimp only at meets
                rw [last] at meets
                exact meets
              · intro specifier rest left
                unfold InOrder at meets
                dsimp only at meets
                rw [left] at meets
                exact meets
          | _ => cases stepped
  | running =>
      have quiet : ∀ loops asked, Phase.running ≠ .loading loops asked := by simp
      cases action with
      | proceed =>
          cases layers with
          | nil => cases stepped
          | cons layer layers =>
              unfold step at stepped
              dsimp only at stepped
              split at stepped
              · rename_i idle
                exact runPending_settled core (Option.isNone_iff_eq_none.mp idle) rfl meets.1
                  meets.2 stepped
              · cases stepped
      | importCall fromPath specifier =>
          have open_ : NoneWaitsForRunning program ⟨vm, .running, layers, log⟩ ∧
              ∀ path ∈ program.csModuleResolve fromPath specifier,
                MeetsModule program ⟨vm, .running, layers, log⟩ path := by
            cases layers <;> exact meets
          unfold step at stepped
          cases resolves : program.csModuleResolve fromPath specifier with
          | none =>
              cases layers <;>
              · simp only [resolves, Option.ite_none_right_eq_some, Option.some.injEq] at stepped
                exact stepped.2 ▸ settled
          | some path =>
              cases layers <;>
              · simp only [resolves, Option.ite_none_right_eq_some, Option.some.injEq] at stepped
                exact stepped.2 ▸ asked_settled core open_.1 (open_.2 path resolves)
      | importNamespace path => exact importNamespace_settled settled rfl stepped
      | finish =>
          cases layers with
          | nil =>
              cases stepped
              exact .of_running core (by simp)
          | cons layer layers =>
              obtain ⟨path, runs, rfl⟩ := Option.map_eq_some_iff.mp stepped
              exact .of_running (core.finish runs) quiet
      | fail =>
          cases layers with
          | nil =>
              cases stepped
              exact .of_running core (by simp)
          | cons layer layers =>
              obtain ⟨path, runs, rfl⟩ := Option.map_eq_some_iff.mp stepped
              have member : path ∈ bodies (layer :: layers) := by
                rw [bodies_cons, runs]
                exact List.mem_append_left _ (List.mem_singleton_self _)
              obtain ⟨ran, unended, _⟩ := core.running path member
              have still : path ∉ bodies layers := by
                have distinct := core.distinct
                rw [bodies_cons, runs] at distinct
                exact (List.nodup_cons.mp distinct).1
              obtain ⟨needs, targets⟩ := meets path runs
              refine abandon_settled core (fun _ executed => executed) unended still ?_ ?_
                targets rfl
              · intro other same
                rw [runs] at same
                cases same
                rfl
              · intro other waits
                refine needs other waits ?_
                rintro rfl
                rw [(mem_waiting.mp waits).2] at ran
                cases ran

theorem start_settled (entry : String) : Settled program (start program entry) := by
  apply loadResolved_settled
  · exact
      { orderly := trivial
        listed := nofun
        started := nofun
        completed := nofun
        failed := nofun
        running := nofun
        begun := nofun
        distinct := List.nodup_nil
        ordered := nofun
        layers := trivial }
  · exact
      { fits := .asked nofun
        fresh := nofun
        distinct := List.nodup_nil
        clear := nofun
        entry := fun _ => rfl }
  · exact .inr nofun

theorem run_settled {entry : String} (ran : Run program entry (InOrder program) session) :
    Settled program session := by
  induction ran with
  | start => exact start_settled entry
  | step _ meets stepped ih => exact step_settled ih meets stepped

end

/-- Modules run once, in order, or not at all, in every run whose steps meet no module
that failed, was dropped or is running, keep to the list, and fail alone. -/
theorem modules_run_in_order (program : Program) (entry : String) (session : Session)
    (ran : Run program entry (InOrder program) session) : Orderly program session.log :=
  (run_settled ran).core.orderly

/-! ### A program that keeps its modules in order, and one that does not -/

section

variable (program : Program)

def meetsModule (session : Session) (path : String) : Bool :=
  match session.vm.modules path with
  | none => (program.csReadFile path).isNone || decide (.failed path ∉ session.log)
  | some found =>
      found.loading || decide (.completed path ∈ session.log) ||
        decide (path ∈ session.vm.waiting)

/-- A test for the steps in which no body fails and no `import()` comes to an `await`. -/
def inOrder (session : Session) (action : Action) : Bool :=
  match session.phase, session.layers, action with
  | .loading (loop :: _) _, _, .proceed =>
      match loop.rest with
      | [] => decide (session.vm.pending.length < CS_MODULES_MAX)
      | specifier :: _ =>
          (program.csModuleResolve loop.importer specifier).all (meetsModule program session)
  | .running, layer :: _, .proceed =>
      (session.vm.pending.take layer.index).all session.vm.executed &&
        (session.vm.pending[layer.index]?.bind session.vm.modules).all
          (fun module => module.body ≠ some { isAsync := true })
  | .running, layers, .importCall fromPath specifier =>
      (bodies layers).all (fun path =>
        session.vm.waiting.all (fun other => path ∉ program.staticImports other)) &&
        (program.csModuleResolve fromPath specifier).all (meetsModule program session)
  | .running, layer :: _, .fail => layer.body.isNone
  | _, _, _ => true

variable {program}

theorem meetsModule_sound {session : Session} {path : String}
    (passes : meetsModule program session path = true) : MeetsModule program session path := by
  unfold meetsModule at passes
  unfold MeetsModule
  cases found : session.vm.modules path with
  | none =>
      rw [found] at passes
      simpa using passes
  | some module =>
      rw [found] at passes
      simpa [or_assoc] using passes

theorem resolved_sound {session : Session} {resolved : Option String}
    (passes : resolved.all (meetsModule program session) = true) :
    ∀ path ∈ resolved, MeetsModule program session path := by
  intro path same
  rw [Option.mem_def.mp same] at passes
  exact meetsModule_sound passes

theorem inOrder_sound {session : Session} {action : Action}
    (passes : inOrder program session action = true) : InOrder program session action := by
  obtain ⟨vm, phase, layers, log⟩ := session
  cases phase with
  | finished => cases action <;> cases layers <;> trivial
  | loading loops asked =>
      cases loops with
      | nil => cases action <;> trivial
      | cons loop loops =>
          cases action with
          | proceed =>
              unfold inOrder at passes
              unfold InOrder
              dsimp only at passes ⊢
              cases left : loop.rest with
              | nil =>
                  rw [left] at passes
                  exact fun _ => of_decide_eq_true passes
              | cons specifier rest =>
                  rw [left] at passes
                  exact resolved_sound passes
          | _ => trivial
  | running =>
      cases action with
      | proceed =>
          cases layers with
          | nil => trivial
          | cons layer layers =>
              obtain ⟨executed, quiet⟩ := Bool.and_eq_true_iff.mp passes
              refine ⟨List.all_eq_true.mp executed, ?_⟩
              intro path listed module registered _ awaits
              dsimp only at listed registered quiet
              rw [Option.mem_def.mp listed, Option.bind_some, Option.mem_def.mp registered]
                at quiet
              exact absurd awaits (by simpa using quiet)
      | importCall fromPath specifier =>
          have both : ((bodies layers).all (fun path =>
              vm.waiting.all (fun other => path ∉ program.staticImports other)) &&
                (program.csModuleResolve fromPath specifier).all
                  (meetsModule program ⟨vm, .running, layers, log⟩)) = true := by
            cases layers <;> exact passes
          obtain ⟨clear, meets⟩ := Bool.and_eq_true_iff.mp both
          have open_ : NoneWaitsForRunning program ⟨vm, .running, layers, log⟩ := by
            intro path runs other waits
            exact of_decide_eq_true
              (List.all_eq_true.mp (List.all_eq_true.mp clear path runs) other waits)
          cases layers <;> exact ⟨open_, resolved_sound meets⟩
      | importNamespace path => cases layers <;> trivial
      | finish => cases layers <;> trivial
      | fail =>
          cases layers with
          | nil => trivial
          | cons layer layers =>
              intro path runs
              have idle : layer.body.isNone = true := passes
              rw [Option.mem_def.mp runs] at idle
              cases idle

def follow (program : Program) (test : Session → Action → Bool) :
    List Action → Session → Option Session
  | [], session => some session
  | action :: actions, session =>
      if test session action then (step program session action).bind (follow program test actions)
      else none

theorem run_of_follow {entry : String} {test : Session → Action → Bool}
    {allowed : Session → Action → Prop}
    (sound : ∀ session action, test session action = true → allowed session action)
    {actions : List Action} {session last : Session} (ran : Run program entry allowed session)
    (follows : follow program test actions session = some last) :
    Run program entry allowed last := by
  induction actions generalizing session with
  | nil =>
      cases follows
      exact ran
  | cons action actions ih =>
      rw [follow] at follows
      split at follows
      · rename_i passes
        obtain ⟨next, stepped, rest⟩ := Option.bind_eq_some_iff.mp follows
        exact ih (ran.step (sound session action passes) stepped) rest
      · cases follows

end

def directory (files : List (String × List String)) (checks : String → Bool) : Program where
  csModuleResolve _ specifier := some specifier
  csReadFile path := (files.lookup path).map (fun imports => { imports := some imports })
  csTypeCheck _ path := checks path
  csCompile _ _ := some { isAsync := false }
  fitsNamespace _ := true

def sharedLibrary : Program :=
  directory [("main.cx", ["lib.cx"]), ("lib.cx", []), ("plugin.cx", ["lib.cx"])] (fun _ => true)

/-- The plugin is loaded from the top level of the program and again later, and a file
that cannot be read is asked for before. -/
theorem modules_run_in_order_plugin :
    ∃ session, Run sharedLibrary "main.cx" (InOrder sharedLibrary) session ∧
      .answered "plugin.cx" ∈ session.log ∧ Orderly sharedLibrary session.log := by
  have follows : (follow sharedLibrary (inOrder sharedLibrary)
      [.proceed, .proceed, .proceed, .proceed, .finish, .proceed, .importCall "main.cx" "gone.cx",
        .importCall "main.cx" "plugin.cx", .proceed, .proceed, .proceed, .proceed, .proceed,
        .finish, .proceed, .finish, .proceed, .importCall "main.cx" "plugin.cx", .proceed,
        .finish] (start sharedLibrary "main.cx")).any
      (fun session => decide (.answered "plugin.cx" ∈ session.log)) = true := by decide
  obtain ⟨session, reached, answered⟩ := (Option.any_eq_true _ _).mp follows
  have ran := run_of_follow (fun _ _ => inOrder_sound) .start reached
  exact ⟨session, ran, of_decide_eq_true answered,
    modules_run_in_order sharedLibrary "main.cx" session ran⟩

def badModule : Program :=
  directory [("main.cx", []), ("bad.cx", [])] (fun path => path ≠ "bad.cx")

/-- A module that did not pass its checks is found when it is imported again, and its
namespace is handed out. -/
theorem failed_module_answered :
    ¬∀ (program : Program) (entry : String) (session : Session),
      Run program entry (fun _ _ => True) session → Orderly program session.log := by
  intro claim
  have follows : (follow badModule (fun _ _ => true)
      [.proceed, .proceed, .importCall "main.cx" "bad.cx", .proceed,
        .importCall "main.cx" "bad.cx", .proceed, .proceed] (start badModule "main.cx")).any
      (fun session => decide (session.log =
        [.answered "bad.cx", .cleared none [], .accepted "bad.cx", .failed "bad.cx",
          .started "main.cx", .accepted "main.cx"])) = true := by decide
  obtain ⟨session, reached, log⟩ := (Option.any_eq_true _ _).mp follows
  have ran : Run badModule "main.cx" (fun _ _ => True) session :=
    run_of_follow (fun _ _ _ => trivial) .start reached
  have orderly := claim badModule "main.cx" session ran
  rw [of_decide_eq_true log] at orderly
  have completed : Event.completed "bad.cx" ∈ [.cleared none [], .accepted "bad.cx",
      .failed "bad.cx", .started "main.cx", .accepted "main.cx"] := orderly.1
  exact absurd completed (by decide)

end CScript.Modules
