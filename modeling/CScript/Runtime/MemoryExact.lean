/-
A collection is exact.

What survives is the least closed set, each weak map keeps the entries whose
key survives, and what shapes and inline caches still name survives with them.
Two heaps that hold the same objects in different orders come out holding the
same objects again.
-/

import CScript.Runtime.MemoryMarking
import Mathlib.Tactic.FinCases

namespace CScript

open Foundation

/-! ### Sweeping -/

theorem sweep_spec : ∀ (cells : List Cell) (isMarked : Obj → Bool),
    (cells.map Cell.object).Nodup →
    (sweep cells isMarked).1 = cells.filter (fun cell => isMarked cell.object) ∧
      ∀ object, (sweep cells isMarked).2 object =
        (isMarked object && decide (object ∉ cells.map Cell.object))
  | [], isMarked, _ => ⟨rfl, fun object => by simp [sweep]⟩
  | cell :: rest, isMarked, distinct => by
      rw [List.map_cons, List.nodup_cons] at distinct
      by_cases marked : isMarked cell.object = true
      · obtain ⟨kept, reset⟩ :=
          sweep_spec rest (Function.update isMarked cell.object false) distinct.2
        rw [sweep, if_pos marked]
        refine ⟨?_, fun object => ?_⟩
        · have same : rest.filter
                (fun other => Function.update isMarked cell.object false other.object) =
              rest.filter (fun other => isMarked other.object) := by
            apply List.filter_congr
            intro other member
            rw [Function.update_of_ne]
            intro equal
            exact distinct.1 (equal ▸ List.mem_map_of_mem member)
          dsimp only
          rw [List.filter_cons, if_pos marked, ← same, ← kept]
        · rw [reset]
          by_cases here : object = cell.object
          · subst here
            simp [Function.update_self]
          · simp [here]
      · obtain ⟨kept, reset⟩ := sweep_spec rest isMarked distinct.2
        rw [sweep, if_neg marked]
        refine ⟨?_, fun object => ?_⟩
        · rw [List.filter_cons, if_neg marked, ← kept]
        · rw [reset]
          by_cases here : object = cell.object
          · subst here
            simp [marked]
          · simp [here]

/-! ### A collection, step by step -/

theorem absentShape_rooted (roots : Roots) (absentShape : Nat) :
    .cell .shape absentShape ∈ rootReferences roots absentShape := by
  unfold rootReferences
  simp only [List.mem_append, List.mem_singleton, true_or, or_true]

structure Outcome (vm : VM) (marking : Marking Obj) (after : VM) : Prop where
  idle : marking.gray = []
  exact_ : ∀ object, marking.isMarked object = true ↔ Live vm object
  cells : ∀ object body, findBody after.objects object = some body ↔
    ∃ before, findBody vm.objects object = some before ∧ marking.isMarked object = true ∧
      pruneBody (bigintCells vm.objects) marking vm.absentShape before = some body
  pruned : ∀ object before, findBody vm.objects object = some before →
    ∃ body, pruneBody (bigintCells vm.objects) marking vm.absentShape before = some body
  survives : ∀ object, object ∈ after.identities ↔ marking.isMarked object = true
  clear : ∀ object, after.isMarked object = false
  strings : csTableRemoveWhite marking vm.strings = some after.strings
  symbols : csTableRemoveWhiteValues marking vm.symbolsByKey = some after.symbolsByKey
  roots : after.roots = vm.roots
  absentShape : after.absentShape = vm.absentShape

private theorem pruneBody_total {vm : VM} (sane : vm.Sane) (marking : Marking Obj) {cell : Cell}
    (member : cell ∈ vm.objects) :
    ∃ body, pruneBody (bigintCells vm.objects) marking vm.absentShape cell.body = some body := by
  cases bodyEq : cell.body with
  | shape shape =>
      obtain ⟨transitions, ran, _⟩ := csShapePruneTransitions_spec marking
        (sane.transitions cell member shape bodyEq).1
      exact ⟨.shape { shape with transitions := transitions }, by rw [pruneBody, ran]; rfl⟩
  | map map =>
      by_cases weak : map.isWeak = true
      · obtain ⟨items, holds⟩ := sane.weakMaps cell member map bodyEq weak
        obtain ⟨after, ran, _⟩ := pruneWeakMap_spec marking holds
        exact ⟨.map after, by rw [pruneBody, if_pos weak, ran]; rfl⟩
      · exact ⟨.map map, by rw [pruneBody, if_neg weak]⟩
  | function function =>
      exact ⟨.function (csChunkPruneCaches marking vm.absentShape function), rfl⟩
  | _ => exact ⟨_, rfl⟩

private theorem mapM_cells {prune : Cell → Option Cell} :
    ∀ (cells : List Cell), (∀ cell ∈ cells, ∃ after, prune cell = some after) →
      ∃ after, cells.mapM prune = some after ∧
        List.Forall₂ (fun cell pruned => prune cell = some pruned) cells after
  | [], _ => ⟨[], rfl, List.Forall₂.nil⟩
  | cell :: rest, total => by
      obtain ⟨head, headEq⟩ := total cell List.mem_cons_self
      obtain ⟨tail, tailEq, related⟩ := mapM_cells rest
        (fun other later => total other (List.mem_cons_of_mem cell later))
      refine ⟨head :: tail, ?_, List.Forall₂.cons headEq related⟩
      rw [List.mapM_cons, headEq, tailEq]
      rfl

private theorem pruneCell_object {bigints : BigIntCells} {marking : Marking Obj}
    {absentShape : Nat} {cell pruned : Cell}
    (ran : pruneCell bigints marking absentShape cell = some pruned) :
    pruned.object = cell.object := by
  unfold pruneCell at ran
  split at ran
  · cases bodyEq : pruneBody bigints marking absentShape cell.body with
    | none => rw [bodyEq] at ran; cases ran
    | some body =>
        rw [bodyEq] at ran
        cases ran
        rfl
  · cases ran
    rfl

private theorem forall₂_objects {bigints : BigIntCells} {marking : Marking Obj}
    {absentShape : Nat} {cells pruned : List Cell}
    (related : List.Forall₂
      (fun cell pruned => pruneCell bigints marking absentShape cell = some pruned) cells pruned) :
    pruned.map Cell.object = cells.map Cell.object := by
  induction related with
  | nil => rfl
  | cons head _ ih => rw [List.map_cons, List.map_cons, ih, pruneCell_object head]

private theorem forall₂_mem {Left Right : Type} {relation : Left → Right → Prop}
    {lefts : List Left} {rights : List Right} (related : List.Forall₂ relation lefts rights) :
    (∀ left ∈ lefts, ∃ right ∈ rights, relation left right) ∧
      ∀ right ∈ rights, ∃ left ∈ lefts, relation left right := by
  induction related with
  | nil => simp
  | cons head _ ih =>
      simp only [List.mem_cons, exists_eq_or_imp, forall_eq_or_imp]
      exact ⟨⟨Or.inl head, fun left member => Or.inr (ih.1 left member)⟩,
        Or.inl head, fun right member => Or.inr (ih.2 right member)⟩

theorem csCollectGarbage_outcome {vm : VM} (sane : vm.Sane) :
    ∃ marking after, csCollectGarbage vm = some after ∧ Outcome vm marking after := by
  obtain ⟨traced, marking, ran, ended, idle, exact_, within⟩ := marking_spec sane
  obtain ⟨strings, stringsRan, _⟩ := removeEntries_spec
    (fun entry => entry.key.any (fun key => !marking.isMarked (.string key))) sane.strings
  obtain ⟨symbols, symbolsRan, _⟩ := removeEntries_spec
    (fun entry => isWhite marking entry.value) sane.symbols
  have total : ∀ cell ∈ vm.objects, ∃ after,
      pruneCell (bigintCells vm.objects) marking vm.absentShape cell = some after := by
    intro cell member
    obtain ⟨body, bodyEq⟩ := pruneBody_total sane marking member
    unfold pruneCell
    rw [bodyEq]
    split
    · exact ⟨_, rfl⟩
    · exact ⟨_, rfl⟩
  obtain ⟨pruned, prunedRan, related⟩ := mapM_cells vm.objects total
  have objectsEq := forall₂_objects related
  have prunedDistinct : (pruned.map Cell.object).Nodup := objectsEq ▸ sane.distinct
  obtain ⟨kept, reset⟩ := sweep_spec pruned marking.isMarked prunedDistinct
  refine ⟨marking, { vm with
      objects := (sweep pruned marking.isMarked).1
      marking := { isMarked := (sweep pruned marking.isMarked).2, gray := marking.gray }
      strings := strings
      symbolsByKey := symbols }, ?_, ?_⟩
  · unfold csCollectGarbage csTableRemoveWhite csTableRemoveWhiteValues pruneWeakReferences
    simp only [ran, ended, stringsRan, symbolsRan, prunedRan, Option.bind_eq_bind,
      Option.bind_some]
    rfl
  · have keptMem : ∀ cell, cell ∈ (sweep pruned marking.isMarked).1 ↔
        cell ∈ pruned ∧ marking.isMarked cell.object = true := by
      intro cell
      rw [kept, List.mem_filter]
    have keptDistinct : ((sweep pruned marking.isMarked).1.map Cell.object).Nodup := by
      rw [kept]
      exact prunedDistinct.sublist (List.filter_sublist.map Cell.object)
    constructor
    · exact idle
    · exact exact_
    · intro object body
      constructor
      · intro found
        obtain ⟨member, marked⟩ := (keptMem _).mp (mem_of_findBody found)
        obtain ⟨cell, here, cellRan⟩ := (forall₂_mem related).2 _ member
        have sameObject : object = cell.object := pruneCell_object cellRan
        have cellMarked : marking.isMarked cell.object = true := sameObject ▸ marked
        refine ⟨cell.body, ?_, marked, ?_⟩
        · rw [sameObject]
          exact findBody_of_mem sane.distinct here
        · unfold pruneCell at cellRan
          rw [if_pos cellMarked] at cellRan
          obtain ⟨body', bodyEq, same⟩ := Option.bind_eq_some_iff.mp cellRan
          cases same
          exact bodyEq
      · rintro ⟨before, found, marked, bodyEq⟩
        obtain ⟨cell, here, cellRan⟩ := (forall₂_mem related).1 _ (mem_of_findBody found)
        have same : cell = { object := object, body := body } := by
          unfold pruneCell at cellRan
          rw [if_pos marked] at cellRan
          simp only [bodyEq, Option.bind_eq_bind, Option.bind_some] at cellRan
          exact (Option.some.inj cellRan).symm
        subst same
        exact findBody_of_mem keptDistinct ((keptMem _).mpr ⟨here, marked⟩)
    · intro object before found
      exact pruneBody_total sane marking (mem_of_findBody found)
    · intro object
      unfold VM.identities
      constructor
      · intro member
        obtain ⟨cell, here, rfl⟩ := List.mem_map.mp member
        exact ((keptMem cell).mp here).2
      · intro marked
        have member := within object marked
        unfold VM.identities at member
        rw [← objectsEq] at member
        obtain ⟨cell, here, rfl⟩ := List.mem_map.mp member
        exact List.mem_map_of_mem ((keptMem cell).mpr ⟨here, marked⟩)
    · intro object
      refine (reset object).trans ?_
      cases marked : marking.isMarked object with
      | false => rfl
      | true =>
          have member := within object marked
          unfold VM.identities at member
          rw [← objectsEq] at member
          simp only [Bool.true_and, decide_eq_false_iff_not, Decidable.not_not]
          exact member
    · exact stringsRan
    · exact symbolsRan
    · rfl
    · rfl

/-! ### What a collection leaves -/

def Survives (after : VM) (object : Obj) : Prop :=
  object ∈ after.identities

def keySurvives (after : VM) (item : Value × Value) : Bool :=
  (ofValue item.1).all (fun key => decide (key ∈ after.identities))

structure Collected (vm after : VM) : Prop where
  closed : Closed vm (Survives after)
  least : ∀ kept, Closed vm kept → ∀ object, Survives after object → kept object
  weakMaps : ∀ object map items, findBody vm.objects object = some (.map map) →
    map.isWeak = true → MapHolds (bigintCells vm.objects) map items → Survives after object →
    ∃ pruned, findBody after.objects object = some (.map pruned) ∧
      pruned.isSet = map.isSet ∧ pruned.isWeak = true ∧
      MapHolds (bigintCells vm.objects) pruned (items.filter (keySurvives after))
  transitions : ∀ object shape key value, findBody after.objects object = some (.shape shape) →
    shape.transitions.lookup key = some value →
    ∃ child, value = .obj (.cell .shape child) ∧ Survives after (.cell .shape child)
  caches : ∀ object function, findBody after.objects object = some (.function function) →
    ∀ cache ∈ function.propertyCaches, Survives after (.cell .shape cache.shape) ∧
      ∀ added, cache.added = some added → Survives after (.cell .shape added)
  clear : ∀ object, after.isMarked object = false

section

variable {vm after : VM} {marking : Marking Obj}

theorem Outcome.survives_iff (outcome : Outcome vm marking after) (object : Obj) :
    Survives after object ↔ Live vm object :=
  (outcome.survives object).trans (outcome.exact_ object)

private theorem Outcome.closed (outcome : Outcome vm marking after) :
    Closed vm (Survives after) := by
  have same : Survives after = Live vm := funext (fun object =>
    propext (outcome.survives_iff object))
  rw [same]
  exact live_closed vm

private theorem Outcome.keyAlive_eq (outcome : Outcome vm marking after)
    (item : Value × Value) : keyAlive marking item = keySurvives after item := by
  rw [Bool.eq_iff_iff]
  unfold keyAlive keySurvives
  rw [Bool.not_eq_true', isWhite_eq_false, List.all_eq_true]
  constructor
  · intro alive object held
    exact decide_eq_true ((outcome.survives object).mpr (alive object held))
  · intro alive object held
    exact (outcome.survives object).mp (of_decide_eq_true (alive object held))

private theorem Outcome.weakMap (outcome : Outcome vm marking after) {object : Obj}
    {map : ObjMap} {items : List (Value × Value)}
    (found : findBody vm.objects object = some (.map map)) (weak : map.isWeak = true)
    (holds : MapHolds (bigintCells vm.objects) map items) (survives : Survives after object) :
    ∃ pruned, findBody after.objects object = some (.map pruned) ∧
      pruned.isSet = map.isSet ∧ pruned.isWeak = true ∧
      MapHolds (bigintCells vm.objects) pruned (items.filter (keySurvives after)) := by
  obtain ⟨pruned, ran, prunedHolds, isSet, isWeak⟩ := pruneWeakMap_spec marking holds
  rw [funext outcome.keyAlive_eq] at prunedHolds
  refine ⟨pruned, ?_, isSet, isWeak.trans weak, prunedHolds⟩
  apply (outcome.cells object (.map pruned)).mpr
  refine ⟨.map map, found, (outcome.survives object).mp survives, ?_⟩
  rw [pruneBody, if_pos weak, ran]
  rfl

private theorem pruneBody_map {bigints : BigIntCells} {absentShape : Nat} {map : ObjMap}
    {body : Body} (ran : pruneBody bigints marking absentShape (.map map) = some body) :
    ∃ pruned, body = .map pruned := by
  by_cases weak : map.isWeak = true
  · rw [pruneBody, if_pos weak] at ran
    obtain ⟨pruned, _, same⟩ := Option.map_eq_some_iff.mp ran
    exact ⟨pruned, same.symm⟩
  · rw [pruneBody, if_neg weak] at ran
    exact ⟨map, (Option.some.inj ran).symm⟩

private theorem pruneBody_shape {bigints : BigIntCells} {absentShape : Nat} {before : Body}
    {shape : Shape} (ran : pruneBody bigints marking absentShape before = some (.shape shape)) :
    ∃ old, before = .shape old ∧ csShapePruneTransitions marking old = some shape := by
  cases before with
  | shape old =>
      obtain ⟨pruned, prunedEq, same⟩ := Option.map_eq_some_iff.mp ran
      cases same
      exact ⟨old, rfl, prunedEq⟩
  | map map =>
      obtain ⟨_, wrong⟩ := pruneBody_map ran
      cases wrong
  | _ => cases ran

private theorem pruneBody_function {bigints : BigIntCells} {absentShape : Nat} {before : Body}
    {function : ObjFunction}
    (ran : pruneBody bigints marking absentShape before = some (.function function)) :
    ∃ old, before = .function old ∧ csChunkPruneCaches marking absentShape old = function := by
  cases before with
  | function old =>
      cases ran
      exact ⟨old, rfl, rfl⟩
  | shape old =>
      obtain ⟨_, _, wrong⟩ := Option.map_eq_some_iff.mp ran
      cases wrong
  | map map =>
      obtain ⟨_, wrong⟩ := pruneBody_map ran
      cases wrong
  | _ => cases ran

private theorem Outcome.transition (sane : vm.Sane) (outcome : Outcome vm marking after)
    {object : Obj} {shape : Shape} {key : ObjString} {value : Value}
    (found : findBody after.objects object = some (.shape shape))
    (leads : shape.transitions.lookup key = some value) :
    ∃ child, value = .obj (.cell .shape child) ∧ Survives after (.cell .shape child) := by
  obtain ⟨before, here, _, ran⟩ := (outcome.cells object (.shape shape)).mp found
  obtain ⟨old, rfl, pruned⟩ := pruneBody_shape ran
  obtain ⟨wf, shapes⟩ := sane.transitions _ (mem_of_findBody here) old rfl
  obtain ⟨transitions, prunedEq, _, kept⟩ := csShapePruneTransitions_spec marking wf
  rw [pruned] at prunedEq
  cases prunedEq
  rw [kept, Option.filter_eq_some_iff] at leads
  obtain ⟨child, childEq⟩ := shapes key value leads.1
  refine ⟨child, childEq, (outcome.survives _).mpr ?_⟩
  have alive : isWhite marking value = false := by simpa using leads.2
  apply isWhite_eq_false.mp alive
  rw [childEq]
  exact List.mem_singleton.mpr rfl

private theorem Outcome.cache (outcome : Outcome vm marking after) {object : Obj}
    {function : ObjFunction} (found : findBody after.objects object = some (.function function))
    {cache : PropertyCache} (member : cache ∈ function.propertyCaches) :
    Survives after (.cell .shape cache.shape) ∧
      ∀ added, cache.added = some added → Survives after (.cell .shape added) := by
  obtain ⟨before, _, _, ran⟩ := (outcome.cells object (.function function)).mp found
  obtain ⟨old, rfl, rfl⟩ := pruneBody_function ran
  obtain ⟨oldCache, _, rfl⟩ := List.mem_map.mp member
  have rooted : marking.isMarked (.cell .shape vm.absentShape) = true :=
    (outcome.exact_ _).mpr
      ((live_closed vm).roots _ (absentShape_rooted vm.roots vm.absentShape))
  obtain ⟨shape, added⟩ := pruneCache_alive marking rooted oldCache
  exact ⟨(outcome.survives _).mpr shape,
    fun other here => (outcome.survives _).mpr (added other here)⟩

private theorem Outcome.collected (sane : vm.Sane) (outcome : Outcome vm marking after) :
    Collected vm after where
  closed := outcome.closed
  least kept closed object survives := (outcome.survives_iff object).mp survives kept closed
  weakMaps _ _ _ found weak holds survives := outcome.weakMap found weak holds survives
  transitions _ _ _ _ found leads := outcome.transition sane found leads
  caches _ _ found _ member := outcome.cache found member
  clear := outcome.clear

end

/-! ### The order of objects and entries -/

inductive BodyReordered : Body → Body → Prop where
  | same (body : Body) : BodyReordered body body
  | map {left right : ObjMap} (entries : left.entries.Perm right.entries)
      (isSet : left.isSet = right.isSet) (isWeak : left.isWeak = right.isWeak) :
      BodyReordered (.map left) (.map right)

structure Reordered (left right : VM) : Prop where
  forward : ∀ object body, findBody left.objects object = some body →
    ∃ other, findBody right.objects object = some other ∧ BodyReordered body other
  backward : ∀ object body, findBody right.objects object = some body →
    ∃ other, findBody left.objects object = some other ∧ BodyReordered body other
  roots : left.roots = right.roots
  absentShape : left.absentShape = right.absentShape
  strings : left.strings = right.strings
  symbolsByKey : left.symbolsByKey = right.symbolsByKey

theorem BodyReordered.symm {left right : Body} (reordered : BodyReordered left right) :
    BodyReordered right left := by
  cases reordered with
  | same => exact .same left
  | map entries isSet isWeak => exact .map entries.symm isSet.symm isWeak.symm

theorem Reordered.symm {left right : VM} (reordered : Reordered left right) :
    Reordered right left where
  forward := reordered.backward
  backward := reordered.forward
  roots := reordered.roots.symm
  absentShape := reordered.absentShape.symm
  strings := reordered.strings.symm
  symbolsByKey := reordered.symbolsByKey.symm

section

variable {left right : VM}

private theorem Reordered.findShape_some (reordered : Reordered left right) {address : Nat}
    {shape : Shape} (found : findShape left.objects address = some shape) :
    findShape right.objects address = some shape := by
  unfold findShape at found ⊢
  cases here : findBody left.objects (.cell .shape address) with
  | none => rw [here] at found; cases found
  | some body =>
      obtain ⟨other, otherHere, change⟩ := reordered.forward _ _ here
      rw [here] at found
      rw [otherHere]
      cases change with
      | same => exact found
      | map _ _ _ => cases found

private theorem Reordered.findShape (reordered : Reordered left right) (address : Nat) :
    CScript.findShape left.objects address = CScript.findShape right.objects address := by
  cases found : CScript.findShape left.objects address with
  | some shape => exact (reordered.findShape_some found).symm
  | none =>
      cases other : CScript.findShape right.objects address with
      | none => rfl
      | some shape =>
          rw [reordered.symm.findShape_some other] at found
          cases found

private theorem csObjectBlacken_congr {objects others : List Cell} (symbolsByKey : Table)
    (shapes : ∀ address, CScript.findShape objects address = CScript.findShape others address)
    (body : Body) :
    csObjectBlacken objects symbolsByKey body = csObjectBlacken others symbolsByKey body := by
  cases body with
  | object object =>
      have layouts : ∀ layout, layoutReferences objects layout = layoutReferences others layout := by
        intro layout
        cases layout with
        | slots address values => rw [layoutReferences, layoutReferences, shapes]
        | dictionary table keys => rfl
      rw [csObjectBlacken, csObjectBlacken, objectReferences, objectReferences, layouts]
  | _ => rfl

private theorem mapReferences_perm {one other : ObjMap} (entries : one.entries.Perm other.entries)
    (isWeak : one.isWeak = other.isWeak) :
    (mapReferences one).Perm (mapReferences other) := by
  unfold mapReferences compactEntries
  rw [isWeak]
  split
  · exact List.Perm.refl []
  · exact (entries.filter MapEntry.present).flatMap_right _

private theorem Reordered.references (reordered : Reordered left right) {object : Obj}
    {reached : List Obj} (read : CScript.references left object = some reached) :
    ∃ others, CScript.references right object = some others ∧ reached.Perm others := by
  unfold CScript.references at read ⊢
  obtain ⟨body, found, followed⟩ := Option.bind_eq_some_iff.mp read
  obtain ⟨other, otherFound, change⟩ := reordered.forward object body found
  rw [csObjectBlacken_congr _ reordered.findShape, reordered.symbolsByKey] at followed
  rw [otherFound]
  cases change with
  | same => exact ⟨reached, followed, List.Perm.refl reached⟩
  | map entries _ isWeak =>
      cases followed
      exact ⟨_, rfl, mapReferences_perm entries isWeak⟩

theorem Reordered.closed (reordered : Reordered left right) {kept : Obj → Prop}
    (closed : Closed left kept) : Closed right kept where
  roots object member := by
    rw [← reordered.roots, ← reordered.absentShape] at member
    exact closed.roots object member
  strong object reached held read other member := by
    obtain ⟨others, read', perm⟩ := reordered.symm.references read
    exact closed.strong object others held read' other (perm.mem_iff.mp member)
  ephemeron object map held found weak entry member present key other reached := by
    obtain ⟨body, found', change⟩ := reordered.backward object _ found
    cases change with
    | same =>
        exact closed.ephemeron object map held found' weak entry member present key other reached
    | map entries _ isWeak =>
        exact closed.ephemeron object _ held found' (isWeak ▸ weak) entry
          (entries.mem_iff.mp member) present key other reached

theorem Reordered.live (reordered : Reordered left right) (object : Obj) :
    Live left object ↔ Live right object :=
  ⟨fun live kept closed => live kept (reordered.symm.closed closed),
    fun live kept closed => live kept (reordered.closed closed)⟩

private theorem pruned_entries {bigints : BigIntCells} {marking : Marking Obj} {map pruned : ObjMap}
    {items : List (Value × Value)} (holds : MapHolds bigints map items)
    (ran : pruneWeakMap bigints marking map = some pruned) :
    pruned.entries = map.entries.filter (fun entry => !isWhite marking entry.key) ∧
      pruned.isSet = map.isSet ∧ pruned.isWeak = map.isWeak := by
  obtain ⟨after, afterRan, afterHolds, isSet, isWeak⟩ := pruneWeakMap_spec marking holds
  rw [ran] at afterRan
  cases afterRan
  refine ⟨?_, isSet, isWeak⟩
  rw [afterHolds.entries, holds.entries, List.filter_map]
  rfl

private theorem pruneBody_reordered {bigints others : BigIntCells} {marking : Marking Obj}
    {absentShape : Nat} {body other pruned prunedOther : Body}
    (change : BodyReordered body other)
    (holds : ∀ map, body = .map map → map.isWeak = true → ∃ items, MapHolds bigints map items)
    (otherHolds : ∀ map, other = .map map → map.isWeak = true →
      ∃ items, MapHolds others map items)
    (ran : pruneBody bigints marking absentShape body = some pruned)
    (otherRan : pruneBody others marking absentShape other = some prunedOther) :
    BodyReordered pruned prunedOther := by
  have maps : ∀ one two : ObjMap, body = .map one → other = .map two →
      one.entries.Perm two.entries → one.isSet = two.isSet → one.isWeak = two.isWeak →
      BodyReordered pruned prunedOther := by
    rintro one two rfl rfl entries isSet isWeak
    by_cases weak : one.isWeak = true
    · obtain ⟨items, held⟩ := holds one rfl weak
      obtain ⟨otherItems, otherHeld⟩ := otherHolds two rfl (isWeak ▸ weak)
      rw [pruneBody, if_pos weak] at ran
      rw [pruneBody, if_pos (isWeak ▸ weak)] at otherRan
      obtain ⟨after, afterRan, rfl⟩ := Option.map_eq_some_iff.mp ran
      obtain ⟨otherAfter, otherAfterRan, rfl⟩ := Option.map_eq_some_iff.mp otherRan
      obtain ⟨keptEq, keptSet, keptWeak⟩ := pruned_entries held afterRan
      obtain ⟨otherEq, otherSet, otherWeak⟩ := pruned_entries otherHeld otherAfterRan
      refine .map ?_ (by rw [keptSet, otherSet, isSet]) (by rw [keptWeak, otherWeak, isWeak])
      rw [keptEq, otherEq]
      exact entries.filter _
    · rw [pruneBody, if_neg weak] at ran
      rw [pruneBody, if_neg (isWeak ▸ weak)] at otherRan
      cases ran
      cases otherRan
      exact .map entries isSet isWeak
  cases change with
  | map entries isSet isWeak => exact maps _ _ rfl rfl entries isSet isWeak
  | same =>
      cases body with
      | map one => exact maps one one rfl rfl (List.Perm.refl _) rfl rfl
      | _ =>
          have same : some pruned = some prunedOther := ran.symm.trans otherRan
          cases same
          exact .same pruned

private theorem Outcome.sameMarking {marking otherMarking : Marking Obj} {after otherAfter : VM}
    (reordered : Reordered left right) (outcome : Outcome left marking after)
    (otherOutcome : Outcome right otherMarking otherAfter) : otherMarking = marking := by
  have marks : otherMarking.isMarked = marking.isMarked := by
    funext object
    rw [Bool.eq_iff_iff, outcome.exact_, otherOutcome.exact_]
    exact (reordered.live object).symm
  have gray : otherMarking.gray = marking.gray := otherOutcome.idle.trans outcome.idle.symm
  cases marking
  cases otherMarking
  cases marks
  cases gray
  rfl

private theorem Outcome.forward {marking : Marking Obj} {after otherAfter : VM}
    (sane : left.Sane) (otherSane : right.Sane) (reordered : Reordered left right)
    (outcome : Outcome left marking after) (otherOutcome : Outcome right marking otherAfter)
    {object : Obj} {body : Body}
    (found : findBody after.objects object = some body) :
    ∃ other, findBody otherAfter.objects object = some other ∧ BodyReordered body other := by
  obtain ⟨before, here, marked, ran⟩ := (outcome.cells object body).mp found
  obtain ⟨otherBefore, there, change⟩ := reordered.forward object before here
  obtain ⟨other, otherRan⟩ := otherOutcome.pruned object otherBefore there
  refine ⟨other, (otherOutcome.cells object other).mpr
    ⟨otherBefore, there, marked, otherRan⟩, ?_⟩
  rw [reordered.absentShape] at ran
  exact pruneBody_reordered change
    (fun map bodyEq weak => sane.weakMaps _ (mem_of_findBody here) map bodyEq weak)
    (fun map bodyEq weak => otherSane.weakMaps _ (mem_of_findBody there) map bodyEq weak)
    ran otherRan

private theorem Outcome.reordered {marking : Marking Obj} {after otherAfter : VM}
    (sane : left.Sane) (otherSane : right.Sane) (reordered : Reordered left right)
    (outcome : Outcome left marking after) (otherOutcome : Outcome right marking otherAfter) :
    Reordered after otherAfter where
  forward _ _ found := outcome.forward sane otherSane reordered otherOutcome found
  backward _ _ found := otherOutcome.forward otherSane sane reordered.symm outcome found
  roots := by rw [outcome.roots, otherOutcome.roots, reordered.roots]
  absentShape := by rw [outcome.absentShape, otherOutcome.absentShape, reordered.absentShape]
  strings := by
    have same := otherOutcome.strings
    rw [← reordered.strings, outcome.strings] at same
    exact Option.some.inj same
  symbolsByKey := by
    have same := otherOutcome.symbols
    rw [← reordered.symbolsByKey, outcome.symbols] at same
    exact Option.some.inj same

end

/-- A collection ends, keeps exactly what it must, and does not depend on the
order of the objects or of the entries of a map. -/
theorem csCollectGarbage_exact {vm : VM} (sane : vm.Sane) :
    ∃ after, csCollectGarbage vm = some after ∧ Collected vm after ∧
      ∀ other : VM, other.Sane → Reordered vm other →
        ∃ otherAfter, csCollectGarbage other = some otherAfter ∧ Reordered after otherAfter := by
  obtain ⟨marking, after, ran, outcome⟩ := csCollectGarbage_outcome sane
  refine ⟨after, ran, outcome.collected sane, fun other otherSane reordered => ?_⟩
  obtain ⟨otherMarking, otherAfter, otherRan, otherOutcome⟩ := csCollectGarbage_outcome otherSane
  have same := outcome.sameMarking reordered otherOutcome
  subst same
  exact ⟨otherAfter, otherRan, outcome.reordered sane otherSane reordered otherOutcome⟩

/-! ### Two weak maps, the second reached through the first -/

private def arrayValue (address : Nat) : Value :=
  .obj (.cell .array address)

private def weakMapOf (entries : List MapEntry) (index : List (Option Nat)) : Body :=
  .map { entries := entries, liveCount := entries.length, index := index, isSet := false,
         isWeak := true }

/-- The program holds both maps and the first array.  The value kept for it is
the key of the other map, which comes first on the list. -/
def weakChain : VM where
  objects :=
    [{ object := .cell .shape emptyShape, body := .shape allocateShape },
     { object := .cell .shape 1, body := .shape allocateShape },
     { object := .cell .map 8
       body := weakMapOf [entryOf (arrayValue 5, arrayValue 7)]
         [none, none, none, none, none, some 0, none, none] },
     { object := .cell .map 2
       body := weakMapOf [entryOf (arrayValue 3, arrayValue 5), entryOf (arrayValue 4, arrayValue 6)]
         [none, none, none, some 0, some 1, none, none, none] },
     { object := .cell .array 3, body := .array none [] },
     { object := .cell .array 4, body := .array none [] },
     { object := .cell .array 5, body := .array none [] },
     { object := .cell .array 6, body := .array none [] },
     { object := .cell .array 7, body := .array none [] }]
  marking := { isMarked := fun _ => false, gray := [] }
  roots :=
    { stack := [.obj (.cell .map 2), .obj (.cell .map 8), arrayValue 3]
      jitRoots := [], frames := [], openUpvalues := [], pendingException := none
      pendingNewTarget := .undefined, accessorMarker := none, microtasks := [], timers := []
      rejected := [], promiseNatives := [], promiseMethods := csTableInit
      mapMethods := csTableInit, generatorMethods := csTableInit, numberMethods := csTableInit
      functionMethods := csTableInit, dateMethods := csTableInit, weakMethods := csTableInit
      symbolMethods := csTableInit, bigintMethods := csTableInit, symbolRegistry := csTableInit
      iteratorSymbol := none, asyncIteratorSymbol := none, regexMethods := csTableInit
      builtins := csTableInit, builtinConsts := csTableInit, modules := csTableInit
      mainModule := none, currentFiber := none, arrayMethods := csTableInit
      stringMethods := csTableInit, tempRoots := [], compilerFunctions := []
      jitReferences := [] }
  strings := csTableInit
  symbolsByKey := csTableInit
  absentShape := 1

private theorem reads_of_check {vm : VM}
    (check : vm.identities.all (fun object => (references vm object).any
      (fun reached => reached.all (fun other => decide (other ∈ vm.identities)))) = true) :
    Marking.Reads (references vm) vm.identities := by
  intro object member
  have here := List.all_eq_true.mp check object member
  cases read : references vm object with
  | none => rw [read] at here; cases here
  | some reached =>
      rw [read, Option.any_some] at here
      exact ⟨reached, rfl, fun other held =>
        of_decide_eq_true (List.all_eq_true.mp here other held)⟩

private theorem holds_of_rehash {bigints : BigIntCells} {map : ObjMap}
    {items : List (Value × Value)} (entries : map.entries = items.map entryOf)
    (live : map.liveCount = items.length)
    (distinct : OrderedMap.Distinct (csValuesSameValueZero bigints) items)
    (rebuilt : rehash bigints map 8 = some map) (few : items.length ≤ 6) :
    MapHolds bigints map items := by
  have compact : compactEntries map.entries = items.map entryOf := by
    rw [entries, compactEntries_map]
  obtain ⟨index, ran, length, indexed⟩ := @rehash_spec bigints map 3
    (by rw [compact]; exact distinct_entries distinct)
    (by rw [compact, List.length_map]; omega)
  have same : map = { map with entries := compactEntries map.entries, index := index } :=
    Option.some.inj (rebuilt.symm.trans ran)
  have indexEq : map.index = index := congrArg ObjMap.index same
  rw [← indexEq] at indexed length
  rw [compact, List.length_map, ← entries] at indexed
  exact { entries := entries, live := live, distinct := distinct
          index := Or.inr ⟨indexed, by omega, by omega⟩ }

private theorem weakChain_sane : weakChain.Sane where
  distinct := by decide
  clear _ := rfl
  idle := rfl
  rooted := by decide
  reads := reads_of_check (by decide)
  weakValues := by
    intro cell member map bodyEq _ entry held _ other reached
    fin_cases member <;> cases bodyEq <;> fin_cases held <;> fin_cases reached <;> decide
  weakMaps := by
    intro cell member map bodyEq _
    fin_cases member <;> cases bodyEq
    · exact ⟨[(arrayValue 5, arrayValue 7)], holds_of_rehash rfl rfl
        (by unfold OrderedMap.Distinct; decide) (by decide) (by decide)⟩
    · exact ⟨[(arrayValue 3, arrayValue 5), (arrayValue 4, arrayValue 6)],
        holds_of_rehash rfl rfl (by unfold OrderedMap.Distinct; decide) (by decide) (by decide)⟩
  transitions := by
    intro cell member shape bodyEq
    have empty : shape.transitions = csTableInit := by
      fin_cases member <;> cases bodyEq <;> rfl
    rw [empty]
    exact ⟨csTableInit_wellFormed, fun key value found => by cases found⟩
  strings := csTableInit_wellFormed
  symbols := csTableInit_wellFormed

/-- The fourth array is lost with its value; the chain through both maps is
kept, though the pass meets the second map first. -/
theorem csCollectGarbage_exact_weakChain :
    ∃ after, csCollectGarbage weakChain = some after ∧ Collected weakChain after ∧
      after.identities = [.cell .shape emptyShape, .cell .shape 1, .cell .map 8, .cell .map 2,
        .cell .array 3, .cell .array 5, .cell .array 7] := by
  obtain ⟨after, ran, collected, _⟩ := csCollectGarbage_exact weakChain_sane
  refine ⟨after, ran, collected, ?_⟩
  have evaluated : (csCollectGarbage weakChain).map VM.identities = some
      [.cell .shape emptyShape, .cell .shape 1, .cell .map 8, .cell .map 2, .cell .array 3,
        .cell .array 5, .cell .array 7] := by decide
  rw [ran] at evaluated
  exact Option.some.inj evaluated

end CScript
