/-
Marking finds the least set of objects that must be kept.

A set is closed when it holds the roots, follows the references of its objects
and holds the value of a weak map's entry with the map and the key.  Every pass
over the weak maps either marks an object more or finds nothing left to mark,
so the passes end, and what is marked then is closed; nothing is ever marked
that some closed set can do without.
-/

import CScript.Runtime.WeakReferences

namespace CScript

open Foundation

/-! ### The sets a collection may keep -/

def VM.identities (vm : VM) : List Obj :=
  vm.objects.map Cell.object

def KeyKept (kept : Obj → Prop) (key : Value) : Prop :=
  ∀ object ∈ ofValue key, kept object

structure Closed (vm : VM) (kept : Obj → Prop) : Prop where
  roots : ∀ object ∈ rootReferences vm.roots vm.absentShape, kept object
  strong : ∀ object reached, kept object → references vm object = some reached →
    ∀ other ∈ reached, kept other
  ephemeron : ∀ object map, kept object → findBody vm.objects object = some (.map map) →
    map.isWeak = true → ∀ entry ∈ map.entries, entry.present = true →
    KeyKept kept entry.key → ∀ other ∈ ofValue entry.value, kept other

def Live (vm : VM) (object : Obj) : Prop :=
  ∀ kept, Closed vm kept → kept object

theorem live_closed (vm : VM) : Closed vm (Live vm) where
  roots object member _ closed := closed.roots object member
  strong object reached live read other member kept closed :=
    closed.strong object reached (live kept closed) read other member
  ephemeron object map live found weak entry member present keyKept other reached kept closed :=
    closed.ephemeron object map (live kept closed) found weak entry member present
      (fun key held => keyKept key held kept closed) other reached

/-- The heap between two collections: no identity twice, no mark set, no
pointer that leads off the heap, and every table and weak map intact. -/
structure VM.Sane (vm : VM) : Prop where
  distinct : vm.identities.Nodup
  clear : ∀ object, vm.isMarked object = false
  idle : vm.marking.gray = []
  rooted : ∀ object ∈ rootReferences vm.roots vm.absentShape, object ∈ vm.identities
  reads : Marking.Reads (references vm) vm.identities
  weakValues : ∀ cell ∈ vm.objects, ∀ map, cell.body = .map map → map.isWeak = true →
    ∀ entry ∈ map.entries, entry.present = true →
    ∀ other ∈ ofValue entry.value, other ∈ vm.identities
  weakMaps : ∀ cell ∈ vm.objects, ∀ map, cell.body = .map map → map.isWeak = true →
    ∃ items, MapHolds (bigintCells vm.objects) map items
  transitions : ∀ cell ∈ vm.objects, ∀ shape, cell.body = .shape shape →
    shape.transitions.WellFormed ∧ ∀ key value, shape.transitions.lookup key = some value →
      ∃ child, value = .obj (.cell .shape child)
  strings : vm.strings.WellFormed
  symbols : vm.symbolsByKey.WellFormed

/-! ### Cells by identity -/

theorem findBody_of_mem {objects : List Cell} (distinct : (objects.map Cell.object).Nodup)
    {cell : Cell} (member : cell ∈ objects) : findBody objects cell.object = some cell.body := by
  unfold findBody
  induction objects with
  | nil => cases member
  | cons head rest ih =>
      rw [List.map_cons, List.nodup_cons] at distinct
      rcases List.mem_cons.mp member with equal | later
      · subst equal
        rw [List.find?_cons_of_pos (by simp)]
        rfl
      · have elsewhere : head.object ≠ cell.object := by
          intro same
          exact distinct.1 (same ▸ List.mem_map_of_mem later)
        rw [List.find?_cons_of_neg (by simp [elsewhere])]
        exact ih distinct.2 later

theorem mem_of_findBody {objects : List Cell} {object : Obj} {body : Body}
    (found : findBody objects object = some body) :
    { object := object, body := body : Cell } ∈ objects := by
  unfold findBody at found
  obtain ⟨cell, here, bodyEq⟩ := Option.map_eq_some_iff.mp found
  have same : cell.object = object := by simpa using List.find?_some here
  subst same bodyEq
  exact List.mem_of_find?_eq_some here

/-! ### One pass over the weak maps -/

section

variable {vm : VM}

abbrev Found (vm : VM) (marking : Marking Obj) : Prop :=
  Marking.Traced (references vm) vm.identities (Live vm) marking

/-- Marks only appear, and a pass that reports no growth has marked nothing
while one that does has left fewer unmarked. -/
structure Progress (vm : VM) (before after : Marking Obj × Bool) : Prop where
  grows : ∀ object, before.1.isMarked object = true → after.1.isMarked object = true
  work : Marking.work vm.identities after.1 ≤ Marking.work vm.identities before.1
  still : after.2 = false → before = after
  less : after.2 = true → before.2 = true ∨
    Marking.white vm.identities after.1 < Marking.white vm.identities before.1

theorem Progress.rfl_ (state : Marking Obj × Bool) : Progress vm state state where
  grows _ marked := marked
  work := Nat.le_refl _
  still _ := rfl
  less grew := Or.inl grew

theorem Progress.trans {first second third : Marking Obj × Bool}
    (early : Progress vm first second) (late : Progress vm second third) :
    Progress vm first third where
  grows object marked := late.grows object (early.grows object marked)
  work := Nat.le_trans late.work early.work
  still quiet := by
    have same := late.still quiet
    subst same
    exact early.still quiet
  less grew := by
    rcases late.less grew with already | fewer
    · rcases early.less already with before | fewer
      · exact Or.inl before
      · exact Or.inr (Nat.lt_of_le_of_lt (Marking.white_le late.grows) fewer)
    · exact Or.inr (Nat.lt_of_lt_of_le fewer (Marking.white_le early.grows))

def Settled (marking : Marking Obj) (entry : MapEntry) : Prop :=
  entry.present = true → isWhite marking entry.key = false →
    isWhite marking entry.value = false

private theorem markEntries_spec {map : ObjMap}
    (values : ∀ entry ∈ map.entries, entry.present = true →
      ∀ other ∈ ofValue entry.value, other ∈ vm.identities)
    (wanted : ∀ entry ∈ map.entries, entry.present = true → KeyKept (Live vm) entry.key →
      ∀ other ∈ ofValue entry.value, Live vm other) :
    ∀ (entries : List MapEntry) (marking : Marking Obj) (grew : Bool),
      (∀ entry ∈ entries, entry ∈ map.entries) → Found vm marking →
      Found vm (markEntries entries marking grew).1 ∧
        Progress vm (marking, grew) (markEntries entries marking grew) ∧
        ((markEntries entries marking grew).2 = false → ∀ entry ∈ entries, Settled marking entry)
  | [], marking, grew, _, found =>
      ⟨found, Progress.rfl_ (marking, grew), fun _ entry member => by cases member⟩
  | entry :: rest, marking, grew, members, found => by
      have restMembers : ∀ other ∈ rest, other ∈ map.entries :=
        fun other later => members other (List.mem_cons_of_mem entry later)
      -- An entry that needs no mark is passed over.
      have skip : Settled marking entry →
          markEntries (entry :: rest) marking grew = markEntries rest marking grew →
          Found vm (markEntries (entry :: rest) marking grew).1 ∧
            Progress vm (marking, grew) (markEntries (entry :: rest) marking grew) ∧
            ((markEntries (entry :: rest) marking grew).2 = false →
              ∀ other ∈ entry :: rest, Settled marking other) := by
        intro settled goesOn
        obtain ⟨restFound, progress, restSettled⟩ :=
          markEntries_spec values wanted rest marking grew restMembers found
        rw [goesOn]
        refine ⟨restFound, progress, fun quiet other member => ?_⟩
        rcases List.mem_cons.mp member with equal | later
        · rw [equal]
          exact settled
        · exact restSettled quiet other later
      by_cases gone : entry.present = false
      · apply skip
        · intro present
          rw [gone] at present
          cases present
        · rw [markEntries, gone]
          rfl
      have present : entry.present = true := by simpa using gone
      by_cases dead : isWhite marking entry.key = true
      · apply skip
        · intro _ alive
          rw [dead] at alive
          cases alive
        · rw [markEntries, present, dead]
          rfl
      have alive : isWhite marking entry.key = false := Bool.eq_false_iff.mpr dead
      by_cases already : isWhite marking entry.value = false
      · apply skip
        · exact fun _ _ => already
        · rw [markEntries, present, alive, already]
          rfl
      have white : isWhite marking entry.value = true := by simpa using already
      have step : markEntries (entry :: rest) marking grew =
          markEntries rest (marking.markAll (ofValue entry.value)) true := by
        rw [markEntries, present, alive, white]
        rfl
      have here := members entry List.mem_cons_self
      have onHeap := values entry here present
      have markedFound : Found vm (marking.markAll (ofValue entry.value)) :=
        found.markAll onHeap (wanted entry here present 
          (fun key held => found.sound key (isWhite_eq_false.mp alive key held)))
      have marked : Progress vm (marking, grew)
          (marking.markAll (ofValue entry.value), true) := by
        constructor
        · intro object before
          exact (Marking.markAll_isMarked _ _ _).mpr (Or.inl before)
        · exact Marking.work_markAll onHeap
        · intro quiet
          cases quiet
        · intro _
          right
          obtain ⟨object, held, unmarked⟩ := isWhite_eq_true.mp white
          exact Marking.white_lt
            (fun other before => (Marking.markAll_isMarked _ _ _).mpr (Or.inl before))
            (onHeap object held) unmarked ((Marking.markAll_isMarked _ _ _).mpr (Or.inr held))
      obtain ⟨restFound, progress, restSettled⟩ := markEntries_spec values wanted rest
        (marking.markAll (ofValue entry.value)) true restMembers markedFound
      rw [step]
      refine ⟨restFound, marked.trans progress, fun quiet => ?_⟩
      have same := congrArg Prod.snd (progress.still quiet)
      rw [quiet] at same
      cases same

def SettledMaps (marking : Marking Obj) (cells : List Cell) : Prop :=
  ∀ cell ∈ cells, ∀ map, cell.body = .map map → marking.isMarked cell.object = true →
    map.isWeak = true → ∀ entry ∈ map.entries, Settled marking entry

private theorem markWeakMaps_spec (sane : vm.Sane) :
    ∀ (cells : List Cell) (marking : Marking Obj) (grew : Bool),
      (∀ cell ∈ cells, cell ∈ vm.objects) → Found vm marking →
      Found vm (markWeakMaps cells marking grew).1 ∧
        Progress vm (marking, grew) (markWeakMaps cells marking grew) ∧
        ((markWeakMaps cells marking grew).2 = false → SettledMaps marking cells)
  | [], marking, grew, _, found =>
      ⟨found, Progress.rfl_ (marking, grew), fun _ cell member => by cases member⟩
  | cell :: rest, marking, grew, members, found => by
      have restMembers : ∀ other ∈ rest, other ∈ vm.objects :=
        fun other later => members other (List.mem_cons_of_mem cell later)
      have skip : (∀ map, cell.body = .map map → marking.isMarked cell.object = true →
            map.isWeak = true → False) →
          markWeakMaps (cell :: rest) marking grew = markWeakMaps rest marking grew →
          Found vm (markWeakMaps (cell :: rest) marking grew).1 ∧
            Progress vm (marking, grew) (markWeakMaps (cell :: rest) marking grew) ∧
            ((markWeakMaps (cell :: rest) marking grew).2 = false →
              SettledMaps marking (cell :: rest)) := by
        intro other goesOn
        obtain ⟨restFound, progress, restSettled⟩ :=
          markWeakMaps_spec sane rest marking grew restMembers found
        rw [goesOn]
        refine ⟨restFound, progress, fun quiet one member map bodyEq marked weak => ?_⟩
        rcases List.mem_cons.mp member with equal | later
        · subst equal
          exact absurd weak (other map bodyEq marked)
        · exact restSettled quiet one later map bodyEq marked weak
      cases bodyEq : cell.body with
      | map map =>
          by_cases visited : (marking.isMarked cell.object && map.isWeak) = true
          · obtain ⟨marked, weak⟩ := (Bool.and_eq_true _ _).mp visited
            have here := members cell List.mem_cons_self
            have bodyHere : findBody vm.objects cell.object = some (.map map) := by
              rw [← bodyEq]
              exact findBody_of_mem sane.distinct here
            obtain ⟨entriesFound, entriesProgress, entriesSettled⟩ := markEntries_spec
              (sane.weakValues cell here map bodyEq weak)
              ((live_closed vm).ephemeron cell.object map (found.sound cell.object marked)
                bodyHere weak)
              map.entries marking grew (fun _ member => member) found
            obtain ⟨restFound, restProgress, restSettled⟩ := markWeakMaps_spec sane rest
              (markEntries map.entries marking grew).1 (markEntries map.entries marking grew).2
              restMembers entriesFound
            have step : markWeakMaps (cell :: rest) marking grew = markWeakMaps rest
                (markEntries map.entries marking grew).1
                (markEntries map.entries marking grew).2 := by
              rw [markWeakMaps, bodyEq]
              simp only [visited, if_true]
            rw [step]
            refine ⟨restFound, entriesProgress.trans restProgress, fun quiet => ?_⟩
            have restSame := restProgress.still quiet
            have entriesQuiet : (markEntries map.entries marking grew).2 = false := by
              have flag := congrArg Prod.snd restSame
              rw [quiet] at flag
              exact flag
            have same := congrArg Prod.fst (entriesProgress.still entriesQuiet)
            intro one member other otherEq oneMarked otherWeak
            rcases List.mem_cons.mp member with equal | later
            · subst equal
              rw [bodyEq] at otherEq
              cases otherEq
              exact entriesSettled entriesQuiet
            · have settled := restSettled quiet
              rw [← same] at settled
              exact settled one later other otherEq oneMarked otherWeak
          · apply skip
            · intro other otherEq marked weak
              rw [bodyEq] at otherEq
              cases otherEq
              exact visited (by rw [marked, weak]; rfl)
            · rw [markWeakMaps, bodyEq]
              simp only [visited, Bool.false_eq_true, if_false]
      | _ =>
          apply skip
          · intro other otherEq
            rw [bodyEq] at otherEq
            cases otherEq
          · rw [markWeakMaps, bodyEq]

/-! ### The whole of marking -/

private theorem white_le_objects (marking : Marking Obj) :
    Marking.white vm.identities marking ≤ vm.objects.length := by
  unfold Marking.white VM.identities
  calc (vm.objects.map Cell.object).countP _ ≤ (vm.objects.map Cell.object).length :=
        List.countP_le_length
    _ = vm.objects.length := List.length_map _

private theorem traceReferences_spec (sane : vm.Sane) {marking : Marking Obj}
    (found : Found vm marking) (bounded : Marking.work vm.identities marking ≤ vm.objects.length) :
    ∃ after, traceReferences vm marking = some after ∧ Found vm after ∧ after.gray = [] ∧
      ∀ object, marking.isMarked object = true → after.isMarked object = true :=
  Marking.trace_spec sane.reads (live_closed vm).strong vm.objects.length marking found bounded

private theorem work_idle {marking : Marking Obj} (idle : marking.gray = []) :
    Marking.work vm.identities marking = Marking.white vm.identities marking := by
  unfold Marking.work
  rw [idle]
  rfl

private theorem markEphemerons_spec (sane : vm.Sane) :
    ∀ (fuel : Nat) (marking : Marking Obj), Found vm marking → marking.gray = [] →
      Marking.white vm.identities marking < fuel →
      ∃ after, markEphemerons vm fuel marking = some after ∧ Found vm after ∧
        after.gray = [] ∧ SettledMaps after vm.objects ∧
        ∀ object, marking.isMarked object = true → after.isMarked object = true
  | 0, _, _, _, enough => by omega
  | fuel + 1, marking, found, idle, enough => by
      obtain ⟨passFound, progress, settled⟩ :=
        markWeakMaps_spec sane vm.objects marking false (fun _ member => member) found
      unfold markEphemerons
      by_cases grew : (markWeakMaps vm.objects marking false).2 = true
      · have bounded : Marking.work vm.identities (markWeakMaps vm.objects marking false).1 ≤
            vm.objects.length := by
          refine Nat.le_trans progress.work ?_
          rw [work_idle idle]
          exact white_le_objects marking
        obtain ⟨traced, ran, tracedFound, tracedIdle, tracedGrows⟩ :=
          traceReferences_spec sane passFound bounded
        have fewer : Marking.white vm.identities traced <
            Marking.white vm.identities marking := by
          rcases progress.less grew with impossible | less
          · cases impossible
          · exact Nat.lt_of_le_of_lt (Marking.white_le tracedGrows) less
        obtain ⟨after, rest, afterFound, afterIdle, afterSettled, afterGrows⟩ :=
          markEphemerons_spec sane fuel traced tracedFound tracedIdle (by omega)
        refine ⟨after, ?_, afterFound, afterIdle, afterSettled, fun object marked =>
          afterGrows object (tracedGrows object (progress.grows object marked))⟩
        simp only [grew, if_true, ran, Option.bind_eq_bind, Option.bind_some]
        exact rest
      · have quiet : (markWeakMaps vm.objects marking false).2 = false :=
          Bool.eq_false_iff.mpr grew
        have same := congrArg Prod.fst (progress.still quiet)
        refine ⟨marking, ?_, found, idle, settled quiet, fun _ marked => marked⟩
        simp only [quiet, Bool.false_eq_true, if_false]
        rw [← same]

private theorem markRoots_marks (marking : Marking Obj) {object : Obj}
    (member : object ∈ rootReferences vm.roots vm.absentShape) :
    (markRoots vm marking).isMarked object = true := by
  unfold markRoots
  rw [Marking.markAll_isMarked]
  exact Or.inr member

theorem marking_spec (sane : vm.Sane) :
    ∃ traced marking, traceReferences vm (markRoots vm vm.marking) = some traced ∧
      markEphemerons vm (vm.objects.length + 1) traced = some marking ∧
      marking.gray = [] ∧ (∀ object, marking.isMarked object = true ↔ Live vm object) ∧
      ∀ object, marking.isMarked object = true → object ∈ vm.identities := by
  have start : Found vm vm.marking := Marking.traced_empty sane.clear sane.idle
  have rooted : Found vm (markRoots vm vm.marking) :=
    start.markAll sane.rooted (live_closed vm).roots
  have bounded : Marking.work vm.identities (markRoots vm vm.marking) ≤ vm.objects.length := by
    refine Nat.le_trans (Marking.work_markAll sane.rooted) ?_
    rw [work_idle sane.idle]
    exact white_le_objects vm.marking
  obtain ⟨traced, ran, tracedFound, tracedIdle, tracedGrows⟩ :=
    traceReferences_spec sane rooted bounded
  obtain ⟨marking, ended, found, idle, settled, grows⟩ :=
    markEphemerons_spec sane (vm.objects.length + 1) traced tracedFound tracedIdle
      (Nat.lt_succ_of_le (white_le_objects traced))
  refine ⟨traced, marking, ran, ended, idle, fun object => ⟨found.sound object, ?_⟩,
    found.within⟩
  intro live
  apply live (fun other => marking.isMarked other = true)
  constructor
  · intro root member
    exact grows root (tracedGrows root (markRoots_marks vm.marking member))
  · intro one reached marked read other member
    exact found.closed idle marked read member
  · intro one map marked bodyEq weak entry member present keyKept other reached
    have quiet := settled _ (mem_of_findBody bodyEq) map rfl marked weak entry member present
      (isWhite_eq_false.mpr keyKept)
    exact isWhite_eq_false.mp quiet other reached

end

end CScript
