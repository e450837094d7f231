/-
Loading and running the modules of a program.

A module is read, its imports are loaded depth-first, and it is put on the list of
modules that wait to run.  Two loops run that list: the one that runs a program's files,
and `import()`, which runs it inside a call that a top level or a function made.  One
step is one turn of such a loop, one import of a file that is being loaded, or one thing
the program's own code does; the log keeps what happened, the newest first.
-/

import Mathlib.Logic.Function.Basic
import Mathlib.Logic.Relation

namespace CScript.Modules

def CS_MODULES_MAX : Nat := 256

/-! ### Files and modules -/

/-- A file that was read: the specifiers it imports at its top level, in order, unless it
does not parse. -/
structure Source where
  imports : Option (List String)
  deriving DecidableEq, Repr

structure Body where
  isAsync : Bool
  deriving DecidableEq, Repr

structure ObjModule where
  loading : Bool
  executed : Bool
  /-- Kept only until it runs. -/
  body : Option Body
  deriving DecidableEq, Repr

structure VM where
  modules : String → Option ObjModule
  pending : List String

/-- What the loader calls: files are found and read by their paths, and are checked and
compiled among the modules that are there. -/
structure Program where
  csModuleResolve : String → String → Option String
  csReadFile : String → Option Source
  csTypeCheck : VM → String → Bool
  csCompile : VM → String → Option Body
  /-- The exports of a module fit a namespace. -/
  fitsNamespace : String → Bool

def Program.staticImports (program : Program) (path : String) : List String :=
  match program.csReadFile path with
  | some { imports := some imports } => imports.filterMap (program.csModuleResolve path)
  | _ => []

def Program.Needs (program : Program) : String → String → Prop :=
  Relation.TransGen (fun path other => other ∈ program.staticImports path)

def VM.set (vm : VM) (path : String) (module : ObjModule) : VM :=
  { vm with modules := Function.update vm.modules path (some module) }

def VM.executed (vm : VM) (path : String) : Bool :=
  (vm.modules path).any ObjModule.executed

def VM.waiting (vm : VM) : List String :=
  vm.pending.filter (fun path => !vm.executed path)

/-! ### Sessions -/

inductive Event where
  /-- The load of a module answered with it, newly compiled or found. -/
  | accepted (path : String)
  /-- A module failed to load or to run. -/
  | failed (path : String)
  | started (path : String)
  | completed (path : String)
  /-- The namespace of a module was handed out. -/
  | answered (path : String)
  /-- The list was emptied with modules waiting, for a failure or at its end. -/
  | cleared (failure : Option String) (waiting : List String)
  /-- A module was written behind the end of the list. -/
  | outsideList (path : String)
  deriving DecidableEq, Repr

/-- The loop of `csModuleLoadImports` for a module that is being loaded. -/
structure ImportLoop where
  importer : String
  rest : List String
  ok : Bool
  deriving DecidableEq, Repr

/-- The two loops that run the list; `import()` has the module it was asked for. -/
inductive Driver where
  | csVMRunPendingModules
  | importAtRuntime (target : String)
  deriving DecidableEq, Repr

structure Layer where
  driver : Driver
  index : Nat
  body : Option String
  deriving DecidableEq, Repr

/-- Files are being loaded, for the program or for an `import()`, or code is running, or
the program is over. -/
inductive Phase where
  | loading (loops : List ImportLoop) (asked : Option String)
  | running
  | finished
  deriving DecidableEq, Repr

structure Session where
  vm : VM
  phase : Phase
  layers : List Layer
  log : List Event

def Session.note (session : Session) (event : Event) : Session :=
  { session with log := event :: session.log }

def Session.set (session : Session) (path : String) (module : ObjModule) : Session :=
  { session with vm := session.vm.set path module }

/-! ### Loading -/

/-- `csModuleLoadResolved` has answered, with a module or without. -/
def Session.returned (session : Session) (loops : List ImportLoop) (asked : Option String)
    (loaded : Bool) : Session :=
  match loops with
  | loop :: loops =>
      { session with phase := .loading ({ loop with ok := loop.ok && loaded } :: loops) asked }
  | [] =>
      match asked with
      | none =>
          if loaded then
            { session with
              phase := .running
              layers := [{ driver := .csVMRunPendingModules, index := 0, body := none }] }
          else { session with phase := .finished }
      | some target =>
          if loaded then
            { session with
              phase := .running
              layers :=
                { driver := .importAtRuntime target, index := 0, body := none } ::
                  session.layers }
          else { session with phase := .running }

section

variable (program : Program)

/-- Up to the imports of the file, if it comes to that. -/
def csModuleLoadResolved (session : Session) (loops : List ImportLoop) (asked : Option String)
    (path : String) : Session :=
  match session.vm.modules path with
  | some found =>
      if found.loading then session.returned loops asked false
      else (session.note (.accepted path)).returned loops asked true
  | none =>
      match program.csReadFile path with
      | none => (session.note (.failed path)).returned loops asked false
      | some source =>
          if CS_MODULES_MAX ≤ session.vm.pending.length then
            (session.note (.failed path)).returned loops asked false
          else
            let module : ObjModule := { loading := true, executed := false, body := none }
            match source.imports with
            | none =>
                ((session.set path { module with loading := false }).note
                  (.failed path)).returned loops asked false
            | some imports =>
                { session.set path module with
                  phase := .loading
                    ({ importer := path, rest := imports, ok := true } :: loops) asked }

def importsLoaded (session : Session) (importer : String) (ok : Bool) (loops : List ImportLoop)
    (asked : Option String) : Session :=
  let compiled :=
    if ok && program.csTypeCheck session.vm importer then program.csCompile session.vm importer
    else none
  let session := session.set importer { loading := false, executed := false, body := compiled }
  match compiled with
  | none => (session.note (.failed importer)).returned loops asked false
  | some _ =>
      let event :=
        if session.vm.pending.length < CS_MODULES_MAX then Event.accepted importer
        else .outsideList importer
      ({ session with
          vm := { session.vm with pending := session.vm.pending ++ [importer] } }.note
        event).returned loops asked true

/-- One import of the file that is being loaded. -/
def csModuleLoadImports (session : Session) (loop : ImportLoop) (loops : List ImportLoop)
    (asked : Option String) : Session :=
  match loop.rest with
  | [] => importsLoaded program session loop.importer loop.ok loops asked
  | specifier :: rest =>
      match program.csModuleResolve loop.importer specifier with
      | none =>
          { session with
            phase := .loading ({ loop with rest := rest, ok := false } :: loops) asked }
      | some path =>
          csModuleLoadResolved program session ({ loop with rest := rest } :: loops) asked path

/-! ### Running -/

def Session.clear (session : Session) (failure : Option String) : Session :=
  { session with vm := { session.vm with pending := [] } }.note
    (.cleared failure session.vm.waiting)

/-- A module failed under a loop: the program is over, or the `import()` is. -/
def Session.abandon (session : Session) (driver : Driver) (layers : List Layer)
    (path : String) : Session :=
  let session := (session.note (.failed path)).clear (some path)
  match driver with
  | .csVMRunPendingModules => { session with phase := .finished, layers := layers }
  | .importAtRuntime _ => { session with layers := layers }

def Session.conclude (session : Session) (driver : Driver) (layers : List Layer) : Session :=
  let session := { session.clear none with layers := layers }
  match driver with
  | .csVMRunPendingModules => session
  | .importAtRuntime target =>
      if program.fitsNamespace target then session.note (.answered target) else session

/-- One turn of a loop over the list; `none` where it would read a module or a body that
is not there. -/
def runPending (session : Session) (layer : Layer) (layers : List Layer) : Option Session :=
  match session.vm.pending[layer.index]? with
  | none => some (session.conclude program layer.driver layers)
  | some path => do
      let module ← session.vm.modules path
      if module.executed then
        return { session with layers := { layer with index := layer.index + 1 } :: layers }
      else
        let body ← module.body
        let session := session.set path { module with executed := true, body := none }
        if layer.driver ≠ .csVMRunPendingModules && body.isAsync then
          return session.abandon layer.driver layers path
        else
          return { session.note (.started path) with
            layers := { layer with body := some path } :: layers }

/-- The module whose body the innermost loop is running. -/
def Session.current (session : Session) : Option String :=
  session.layers.head?.bind Layer.body

/-- What comes next: a turn of a loop of the loader or the virtual machine, or what the
program's code does, wherever its functions were written. -/
inductive Action where
  | proceed
  | importCall (fromPath : String) (specifier : String)
  | importNamespace (path : String)
  | finish
  | fail
  deriving DecidableEq, Repr

/-- `none` where the action is not open. -/
def step (session : Session) (action : Action) : Option Session :=
  match session.phase, session.layers, action with
  | .loading (loop :: loops) asked, _, .proceed =>
      some (csModuleLoadImports program session loop loops asked)
  | .running, layer :: layers, .proceed =>
      if layer.body.isNone then runPending program session layer layers else none
  | .running, layers, .importCall fromPath specifier =>
      if layers = [] ∨ session.current.isSome then
        match program.csModuleResolve fromPath specifier with
        | none => some session
        | some path => some (csModuleLoadResolved program session [] (some path) path)
      else none
  | .running, _, .importNamespace path =>
      if session.current.any (fun module => path ∈ program.staticImports module) then
        some (if program.fitsNamespace path then session.note (.answered path) else session)
      else none
  | .running, layer :: layers, .finish =>
      layer.body.map (fun path =>
        { session.note (.completed path) with
          layers := { layer with index := layer.index + 1, body := none } :: layers })
  | .running, layer :: layers, .fail =>
      layer.body.map (fun path => session.abandon layer.driver layers path)
  | .running, [], .finish => some { session with phase := .finished }
  | .running, [], .fail => some { session with phase := .finished }
  | _, _, _ => none

/-- `csRunFile` on a path that resolved. -/
def start (path : String) : Session :=
  csModuleLoadResolved program
    { vm := { modules := fun _ => none, pending := [] }, phase := .finished, layers := [], log := [] }
    [] none path

inductive Run (entry : String) (allowed : Session → Action → Prop) : Session → Prop where
  | start : Run entry allowed (start program entry)
  | step {session next : Session} {action : Action} (ran : Run entry allowed session)
      (meets : allowed session action) (stepped : step program session action = some next) :
      Run entry allowed next

end

end CScript.Modules
