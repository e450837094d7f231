/-
The emitter of std:events.

Emits nest: a listener may emit again, and each emit walks its own copy of the list.  A run keeps
beside the Map what was registered and what was removed, so that a walk, a remover and a count can
be held against them.
-/

import CScript.Foundation.OrderedMap
import Mathlib.Data.List.Nodup
import Mathlib.Data.List.Perm.Basic

namespace CScript.Events

open Foundation.OrderedMap

variable {E F : Type} [DecidableEq E]

/-! ### The emitter -/

/-- A function in a list: one that was given to `on`, or the wrapper that a call of `once` made. -/
inductive Listener (E F : Type) where
  | plain (listener : F)
  | wrapper (event : E) (serial : Nat) (listener : F)
  deriving DecidableEq

structure Entry (E F : Type) where
  serial : Nat
  listener : Listener E F
  deriving DecidableEq

abbrev Emitter (E F : Type) :=
  List (E × List (Entry E F))

def registered (emitter : Emitter E F) (event : E) : List (Entry E F) :=
  (lookup equal emitter event).getD []

def on (emitter : Emitter E F) (event : E) (entry : Entry E F) : Emitter E F :=
  put equal emitter event (registered emitter event ++ [entry])

section

variable [DecidableEq F]

/-- `registered[i] === listener` -/
def isListener (listener : Listener E F) (entry : Entry E F) : Bool :=
  decide (entry.listener = listener)

def found (emitter : Emitter E F) (event : E) (listener : Listener E F) : Option (Entry E F) :=
  (registered emitter event).find? (isListener listener)

def off (emitter : Emitter E F) (event : E) (listener : Listener E F) : Bool × Emitter E F :=
  if (found emitter event listener).isSome then
    let kept := (registered emitter event).eraseP (isListener listener)
    (true, if kept = [] then erase equal emitter event else put equal emitter event kept)
  else (false, emitter)

def listenerCount (emitter : Emitter E F) (event : E) : Nat :=
  (registered emitter event).length

def removeAllListeners (emitter : Emitter E F) : Option E → Emitter E F
  | none => []
  | some event => erase equal emitter event

/-! ### Runs -/

/-- An emit that has not ended: what is registered as it starts, which of these it has called, and
the rest of its copy of the list. -/
structure Frame (E F : Type) where
  event : E
  registered : List (Entry E F)
  called : List (Entry E F)
  waiting : List (Entry E F)
  running : Bool

inductive Report (E F : Type) where
  | emitted (registered called : List (Entry E F)) (threw : Bool)
  | removed (serial : Nat) (was : Bool) (taken : List Nat)

/-- The innermost emit comes first.  The remover of a registration is at its serial number in
`made`. -/
structure World (E F : Type) where
  emitter : Emitter E F
  made : List (E × Entry E F)
  gone : List (E × Nat)
  stack : List (Frame E F)
  ran : List Nat
  reports : List (Report E F)

/-- Listeners do any of these, in any order.  A `turn` is one of the loop of `emit`. -/
inductive Act (E F : Type) where
  | on (event : E) (listener : F)
  | once (event : E) (listener : F)
  | off (event : E) (listener : F)
  | remove (serial : Nat)
  | removeAllListeners (event : Option E)
  | emit (event : E)
  | returns
  | throws
  | turn

namespace World

def new : World E F :=
  { emitter := [], made := [], gone := [], stack := [], ran := [], reports := [] }

def live (world : World E F) (event : E) : List (Entry E F) :=
  (world.made.filter fun item => decide (item.1 = event ∧ (item.1, item.2.serial) ∉ world.gone)).map
    Prod.snd

def standing (world : World E F) : List (E × Nat) :=
  (world.made.map fun item => (item.1, item.2.serial)).filter fun item => decide (item ∉ world.gone)

def register (world : World E F) (event : E) (listener : Listener E F) : World E F :=
  let entry := { serial := world.made.length, listener := listener }
  { world with
    emitter := Events.on world.emitter event entry
    made := world.made ++ [(event, entry)] }

/-- A call of `off`. -/
def cut (world : World E F) (event : E) (listener : Listener E F) : World E F :=
  { world with
    emitter := (Events.off world.emitter event listener).2
    gone := world.gone ++
      (found world.emitter event listener).toList.map fun entry => (event, entry.serial) }

def remove (world : World E F) (serial : Nat) : World E F :=
  match world.made[serial]? with
  | none => world
  | some (event, entry) =>
      { world.cut event entry.listener with
        reports := world.reports ++ [.removed serial (decide ((event, serial) ∈ world.standing))
          ((found world.emitter event entry.listener).toList.map Entry.serial)] }

def removeAllListeners (world : World E F) (event : Option E) : World E F :=
  { world with
    emitter := Events.removeAllListeners world.emitter event
    gone := world.gone ++ world.standing.filter fun item =>
      decide (∀ only, event = some only → item.1 = only) }

def emit (world : World E F) (event : E) : World E F :=
  match lookup equal world.emitter event with
  | none => { world with reports := world.reports ++ [.emitted (world.live event) [] false] }
  | some copy =>
      { world with stack :=
          { event := event, registered := world.live event, called := [], waiting := copy
            running := false } :: world.stack }

def call (world : World E F) (entry : Entry E F) : World E F :=
  match entry.listener with
  | .plain _ => world
  | .wrapper event _ _ =>
      { world.cut event entry.listener with ran := world.ran ++ [entry.serial] }

def turn (world : World E F) : World E F :=
  match world.stack with
  | [] => world
  | frame :: rest =>
      if frame.running then world
      else
        match frame.waiting with
        | [] =>
            { world with
              stack := rest
              reports := world.reports ++ [.emitted frame.registered frame.called false] }
        | entry :: waiting =>
            call { world with stack := { frame with
              called := frame.called ++ [entry]
              waiting := waiting
              running := true } :: rest } entry

def leave (world : World E F) (threw : Bool) : World E F :=
  match world.stack with
  | [] => world
  | frame :: rest =>
      if threw then
        { world with
          stack := rest
          reports := world.reports ++ [.emitted frame.registered frame.called true] }
      else { world with stack := { frame with running := false } :: rest }

def free (world : World E F) : Bool :=
  world.stack.head?.all Frame.running

def act (world : World E F) : Act E F → World E F
  | .on event listener => world.register event (.plain listener)
  | .once event listener => world.register event (.wrapper event world.made.length listener)
  | .off event listener => world.cut event (.plain listener)
  | .remove serial => world.remove serial
  | .removeAllListeners event => world.removeAllListeners event
  | .emit event => world.emit event
  | .returns => world.leave false
  | .throws => world.leave true
  | .turn => world.turn

def step (world : World E F) (next : Act E F) : World E F :=
  match next with
  | .turn => world.turn
  | next => if world.free then world.act next else world

def run (world : World E F) (acts : List (Act E F)) : World E F :=
  acts.foldl step world

end World

/-! ### What is asked for -/

/-- An emit has called all that was registered as it started, or by a throw only the first of it.
A remover has removed the registration it is of, where that was there. -/
def Report.Right : Report E F → Prop
  | .emitted all called threw => called <+: all ∧ (threw = false → called = all)
  | .removed serial was taken => taken = if was then [serial] else []

structure Exact (world : World E F) : Prop where
  counted : ∀ event, listenerCount world.emitter event +
      (world.gone.filter fun item => decide (item.1 = event)).length =
    (world.made.filter fun item => decide (item.1 = event)).length
  walked : ∀ frame ∈ world.stack, frame.called ++ frame.waiting = frame.registered
  reports : ∀ report ∈ world.reports, report.Right
  once : world.ran.Nodup

/-- Where a wrapper is called, no walk outside this one still has it to come; where the remover of
a registration is called, it is the first in the list of its function, or none is. -/
def Clear (world : World E F) : Act E F → Prop
  | .turn => ∀ frame rest entry waiting event serial listener, world.stack = frame :: rest →
      frame.waiting = entry :: waiting → entry.listener = .wrapper event serial listener →
        ∀ outer ∈ rest, entry ∉ outer.waiting
  | .remove serial => ∀ event entry other, world.made[serial]? = some (event, entry) →
      found world.emitter event entry.listener = some other → other.serial = serial
  | _ => True

def ClearRun : World E F → List (Act E F) → Prop
  | _, [] => True
  | world, next :: rest => Clear world next ∧ ClearRun (world.step next) rest

end

/-! ### The list of an event -/

structure Sound (world : World E F) : Prop where
  distinct : Distinct equal world.emitter
  lists : ∀ event, lookup equal world.emitter event =
    if world.live event = [] then none else some (world.live event)
  serials : world.made.map (fun item => item.2.serial) = List.range world.made.length
  known : ∀ item ∈ world.gone, item ∈ world.made.map fun item => (item.1, item.2.serial)
  once : world.gone.Nodup
  wrappers : ∀ item ∈ world.made, ∀ event serial listener,
    item.2.listener = .wrapper event serial listener → event = item.1 ∧ serial = item.2.serial

section

variable {world : World E F}

theorem mem_live_iff {event : E} {entry : Entry E F} :
    entry ∈ world.live event ↔
      (event, entry) ∈ world.made ∧ (event, entry.serial) ∉ world.gone := by
  unfold World.live
  rw [List.mem_map]
  constructor
  · rintro ⟨⟨_, _⟩, inside, rfl⟩
    obtain ⟨made, is⟩ := List.mem_filter.mp inside
    obtain ⟨rfl, standing⟩ := of_decide_eq_true is
    exact ⟨made, standing⟩
  · rintro ⟨made, standing⟩
    exact ⟨(event, entry), List.mem_filter.mpr ⟨made, decide_eq_true ⟨rfl, standing⟩⟩, rfl⟩

theorem Sound.numbers_nodup (sound : Sound world) :
    (world.made.map fun item => item.2.serial).Nodup :=
  sound.serials ▸ List.nodup_range

theorem Sound.pairs_nodup (sound : Sound world) :
    (world.made.map fun item => (item.1, item.2.serial)).Nodup := by
  apply List.Nodup.of_map Prod.snd
  rw [List.map_map]
  exact sound.numbers_nodup

theorem Sound.eq_of_serial (sound : Sound world) {one other : E × Entry E F}
    (first : one ∈ world.made) (second : other ∈ world.made)
    (same : one.2.serial = other.2.serial) : one = other :=
  List.inj_on_of_nodup_map sound.numbers_nodup first second same

theorem Sound.serial_lt (sound : Sound world) {item : E × Entry E F} (made : item ∈ world.made) :
    item.2.serial < world.made.length :=
  List.mem_range.mp (sound.serials ▸ List.mem_map_of_mem made)

theorem Sound.serial_of_get (sound : Sound world) {serial : Nat} {item : E × Entry E F}
    (made : world.made[serial]? = some item) : item.2.serial = serial := by
  have there := congrArg (·[serial]?) sound.serials
  rw [List.getElem?_map, made, List.getElem?_range (List.getElem?_eq_some_iff.mp made).1] at there
  exact Option.some.inj there

theorem Sound.live_serials (sound : Sound world) (event : E) :
    ((world.live event).map Entry.serial).Nodup := by
  unfold World.live
  rw [List.map_map]
  exact sound.numbers_nodup.sublist (List.filter_sublist.map _)

theorem Sound.registered_eq (sound : Sound world) (event : E) :
    registered world.emitter event = world.live event := by
  unfold registered
  rw [sound.lists]
  split
  next empty => rw [empty]; rfl
  · rfl

theorem Sound.counted (sound : Sound world) (event : E) :
    listenerCount world.emitter event +
        (world.gone.filter fun item => decide (item.1 = event)).length =
      (world.made.filter fun item => decide (item.1 = event)).length := by
  have perm : ((world.made.filter fun item => decide (item.1 = event)).map fun item =>
      (item.1, item.2.serial)).Perm (((world.live event).map fun entry => (event, entry.serial)) ++
        world.gone.filter fun item => decide (item.1 = event)) := by
    refine (List.perm_ext_iff_of_nodup ?_ ?_).mpr fun item => ?_
    · exact sound.pairs_nodup.sublist (List.filter_sublist.map _)
    · refine List.nodup_append.mpr ⟨?_, sound.once.sublist List.filter_sublist, ?_⟩
      · exact ((sound.live_serials event).of_map _).map_on fun _ first _ second same =>
          List.inj_on_of_nodup_map (sound.live_serials event) first second (congrArg Prod.snd same)
      · rintro _ first other second rfl
        obtain ⟨entry, live, rfl⟩ := List.mem_map.mp first
        exact (mem_live_iff.mp live).2 (List.mem_of_mem_filter second)
    · simp only [List.mem_map, List.mem_append, List.mem_filter, decide_eq_true_eq, mem_live_iff]
      constructor
      · rintro ⟨⟨same, entry⟩, ⟨made, rfl⟩, rfl⟩
        by_cases gone : (same, entry.serial) ∈ world.gone
        · exact .inr ⟨gone, rfl⟩
        · exact .inl ⟨entry, ⟨made, gone⟩, rfl⟩
      · rintro (⟨entry, ⟨made, -⟩, rfl⟩ | ⟨gone, rfl⟩)
        · exact ⟨(event, entry), ⟨made, rfl⟩, rfl⟩
        · obtain ⟨one, made, is⟩ := List.mem_map.mp (sound.known _ gone)
          exact ⟨one, ⟨made, congrArg Prod.fst is⟩, is⟩
  have lengths := perm.length_eq
  rw [List.length_append, List.length_map, List.length_map] at lengths
  unfold listenerCount
  rw [sound.registered_eq]
  exact lengths.symm

theorem new_sound : Sound (.new : World E F) where
  distinct := List.Pairwise.nil
  lists _ := rfl
  serials := rfl
  known _ there := nomatch there
  once := List.nodup_nil
  wrappers _ there := nomatch there

theorem Sound.congr {other : World E F} (sound : Sound world)
    (emitter : other.emitter = world.emitter) (made : other.made = world.made)
    (gone : other.gone = world.gone) : Sound other := by
  cases world
  cases other
  cases emitter
  cases made
  cases gone
  exact ⟨sound.1, sound.2, sound.3, sound.4, sound.5, sound.6⟩

theorem Sound.register (sound : Sound world) (event : E) (listener : Listener E F)
    (own : ∀ event' serial inner, listener = .wrapper event' serial inner →
      event' = event ∧ serial = world.made.length) :
    Sound (world.register event listener) := by
  have fresh : ∀ other, (other, world.made.length) ∉ world.gone := fun other there => by
    obtain ⟨item, made, is⟩ := List.mem_map.mp (sound.known _ there)
    have same : item.2.serial = world.made.length := congrArg Prod.snd is
    exact absurd (sound.serial_lt made) (same ▸ Nat.lt_irrefl _)
  have live : ∀ other, (world.register event listener).live other =
      world.live other ++
        if other = event then [{ serial := world.made.length, listener := listener }] else [] := by
    intro other
    unfold World.live World.register
    dsimp only
    rw [List.filter_append, List.map_append]
    congr 1
    by_cases is : other = event
    · simp [is, fresh event]
    · simp [is, Ne.symm is]
  refine ⟨sound.distinct.put _ _, fun other => ?_, ?_, fun item there => ?_, sound.once, ?_⟩
  · rw [live]
    change lookup equal (put equal _ _ _) _ = _
    rw [lookup_put_equal, sound.registered_eq]
    by_cases is : other = event
    · rw [is, Function.update_self, if_pos rfl, if_neg]
      exact List.append_ne_nil_of_right_ne_nil _ (List.cons_ne_nil _ _)
    · rw [Function.update_of_ne is, if_neg is, List.append_nil, sound.lists]
  · change (world.made ++ [_]).map _ = List.range (world.made ++ [_]).length
    rw [List.map_append, sound.serials, List.length_append, List.length_singleton, List.range_succ]
    rfl
  · change item ∈ (world.made ++ [_]).map _
    rw [List.map_append]
    exact List.mem_append_left _ (sound.known item there)
  · intro item there event' serial inner is
    rcases List.mem_append.mp there with old | new
    · exact sound.wrappers item old event' serial inner is
    · cases List.mem_singleton.mp new
      exact own event' serial inner is

theorem Sound.lose (sound : Sound world) {other : World E F} (made : other.made = world.made)
    (extra : List (E × Nat)) (gone : other.gone = world.gone ++ extra)
    (standing : ∀ item ∈ extra, item ∈ world.standing) (once : extra.Nodup)
    (distinct : Distinct equal other.emitter)
    (lists : ∀ event, registered other.emitter event = (world.live event).filter fun entry =>
      decide ((event, entry.serial) ∉ extra))
    (kept : ∀ event, lookup equal other.emitter event ≠ some []) : Sound other := by
  have live : ∀ event, other.live event = (world.live event).filter fun entry =>
      decide ((event, entry.serial) ∉ extra) := by
    intro event
    unfold World.live
    rw [made, gone, List.filter_map, List.filter_filter]
    refine congrArg (List.map Prod.snd) (List.filter_congr fun item _ => ?_)
    simp only [Function.comp, List.mem_append]
    by_cases is : item.1 = event
    · simp only [is, true_and, not_or, Bool.decide_and, Bool.and_comm]
    · simp only [is, false_and, decide_false, Bool.and_false]
  refine ⟨distinct, fun event => ?_, made ▸ sound.serials, fun item there => ?_, ?_,
    made ▸ sound.wrappers⟩
  · rw [live, ← lists]
    unfold registered
    cases is : lookup equal other.emitter event with
    | none => rfl
    | some list =>
        rw [Option.getD_some, if_neg]
        exact fun empty => kept event (empty ▸ is)
  · rw [gone] at there
    rw [made]
    rcases List.mem_append.mp there with old | new
    · exact sound.known item old
    · exact List.mem_of_mem_filter (standing item new)
  · rw [gone, List.nodup_append]
    refine ⟨sound.once, once, ?_⟩
    rintro _ old item new rfl
    exact of_decide_eq_true (List.mem_filter.mp (standing _ new)).2 old

theorem mem_standing_of_live {event : E} {entry : Entry E F} (live : entry ∈ world.live event) :
    (event, entry.serial) ∈ world.standing := by
  obtain ⟨made, here⟩ := mem_live_iff.mp live
  exact List.mem_filter.mpr ⟨List.mem_map.mpr ⟨(event, entry), made, rfl⟩, decide_eq_true here⟩

theorem Sound.lists_ne (sound : Sound world) (event : E) :
    lookup equal world.emitter event ≠ some [] := by
  rw [sound.lists]
  split
  · exact nofun
  next some => exact fun is => some (Option.some.inj is)

theorem Sound.removeAllListeners (sound : Sound world) (event : Option E) :
    Sound (world.removeAllListeners event) := by
  have away : ∀ other, (∀ only, event = some only → other = only) →
      (world.live other).filter (fun entry => decide ((other, entry.serial) ∉
        world.standing.filter fun item => decide (∀ only, event = some only → item.1 = only))) =
      [] := by
    intro other chosen
    refine List.filter_eq_nil_iff.mpr fun entry live keeps => of_decide_eq_true keeps ?_
    exact List.mem_filter.mpr ⟨mem_standing_of_live live, decide_eq_true chosen⟩
  refine sound.lose rfl _ rfl (fun item there => List.mem_of_mem_filter there)
    ((sound.pairs_nodup.sublist List.filter_sublist).sublist List.filter_sublist) ?_
    (fun other => ?_) fun other => ?_
  · cases event with
    | none => exact List.Pairwise.nil
    | some event => exact sound.distinct.erase event
  · cases event with
    | none => exact (away other nofun).symm
    | some event =>
        change (lookup equal (erase equal world.emitter event) other).getD [] = _
        rw [lookup_erase_equal sound.distinct]
        by_cases is : other = event
        · rw [away other fun only same => is.trans (Option.some.inj same), is, Function.update_self]
          rfl
        · rw [Function.update_of_ne is]
          refine (sound.registered_eq other).trans
            (List.filter_eq_self.mpr fun entry live => ?_).symm
          exact decide_eq_true fun there =>
            is (of_decide_eq_true (List.mem_filter.mp there).2 event rfl)
  · cases event with
    | none => exact nofun
    | some event =>
        change lookup equal (erase equal world.emitter event) other ≠ _
        rw [lookup_erase_equal sound.distinct]
        by_cases is : other = event
        · rw [is, Function.update_self]
          exact nofun
        · rw [Function.update_of_ne is]
          exact sound.lists_ne other

/-! ### Walks -/

structure Walk (made : List (E × Entry E F)) (ran : List Nat) (frame : Frame E F) : Prop where
  walked : frame.called ++ frame.waiting = frame.registered
  known : ∀ entry ∈ frame.waiting, (frame.event, entry) ∈ made
  once : frame.waiting.Nodup
  past : ∀ entry ∈ frame.waiting, entry.serial ∉ ran

structure Kept (world : World E F) : Prop extends Sound world where
  frames : ∀ frame ∈ world.stack, Walk world.made world.ran frame
  ranOnce : world.ran.Nodup
  ranGone : ∀ serial ∈ world.ran, ∃ event, (event, serial) ∈ world.gone
  reports : ∀ report ∈ world.reports, report.Right

theorem Kept.exact (kept : Kept world) : Exact world where
  counted := kept.counted
  walked frame there := (kept.frames frame there).walked
  reports := kept.reports
  once := kept.ranOnce

theorem new_kept : Kept (.new : World E F) where
  toSound := new_sound
  frames _ there := nomatch there
  ranOnce := List.nodup_nil
  ranGone _ there := nomatch there
  reports _ there := nomatch there

omit [DecidableEq E] in
theorem Walk.mono {made more : List (E × Entry E F)} {ran : List Nat} {frame : Frame E F}
    (walk : Walk made ran frame) (within : ∀ item ∈ made, item ∈ more) : Walk more ran frame :=
  ⟨walk.walked, fun entry there => within _ (walk.known entry there), walk.once, walk.past⟩

theorem Kept.mono (kept : Kept world) {other : World E F} (sound : Sound other)
    (stack : other.stack = world.stack) (ran : other.ran = world.ran)
    (reports : ∀ report ∈ other.reports, report.Right)
    (made : ∀ item ∈ world.made, item ∈ other.made)
    (gone : ∀ item ∈ world.gone, item ∈ other.gone) : Kept other where
  toSound := sound
  frames frame there := ran ▸ (kept.frames frame (stack ▸ there)).mono made
  ranOnce := ran ▸ kept.ranOnce
  ranGone serial there := by
    obtain ⟨event, is⟩ := kept.ranGone serial (ran ▸ there)
    exact ⟨event, gone _ is⟩
  reports := reports

theorem Kept.walk (kept : Kept world) {other : World E F} (emitter : other.emitter = world.emitter)
    (made : other.made = world.made) (gone : other.gone = world.gone) (ran : other.ran = world.ran)
    (frames : ∀ frame ∈ other.stack, Walk world.made world.ran frame)
    (reports : ∀ report ∈ other.reports, report.Right) : Kept other where
  toSound := kept.congr emitter made gone
  frames := by
    rw [made, ran]
    exact frames
  ranOnce := ran ▸ kept.ranOnce
  ranGone := by
    rw [ran, gone]
    exact kept.ranGone
  reports := reports

theorem Kept.reports_append (kept : Kept world) {report : Report E F} (right : report.Right) :
    ∀ one ∈ world.reports ++ [report], one.Right := by
  intro one there
  rcases List.mem_append.mp there with old | new
  · exact kept.reports one old
  · exact List.mem_singleton.mp new ▸ right

theorem Kept.register (kept : Kept world) (event : E) (listener : Listener E F)
    (own : ∀ event' serial inner, listener = .wrapper event' serial inner →
      event' = event ∧ serial = world.made.length) :
    Kept (world.register event listener) :=
  kept.mono (kept.toSound.register event listener own) rfl rfl kept.reports
    (fun _ there => List.mem_append_left _ there) fun _ there => there

theorem Kept.removeAllListeners (kept : Kept world) (event : Option E) :
    Kept (world.removeAllListeners event) :=
  kept.mono (kept.toSound.removeAllListeners event) rfl rfl kept.reports (fun _ there => there)
    fun _ there => List.mem_append_left _ there

theorem Kept.emit (kept : Kept world) (event : E) : Kept (world.emit event) := by
  have lists := kept.lists event
  unfold World.emit
  split
  next none =>
    rw [none] at lists
    have empty : world.live event = [] := by
      by_contra some
      rw [if_neg some] at lists
      cases lists
    refine kept.walk rfl rfl rfl rfl kept.frames (kept.reports_append ?_)
    rw [empty]
    exact ⟨List.prefix_refl _, fun _ => rfl⟩
  next copy some =>
    have is : copy = world.live event := by
      rw [some] at lists
      split at lists
      · cases lists
      · exact Option.some.inj lists
    refine kept.walk rfl rfl rfl rfl (List.forall_mem_cons.mpr ⟨?_, kept.frames⟩) kept.reports
    rw [is]
    refine ⟨rfl, fun entry there => (mem_live_iff.mp there).1, (kept.live_serials event).of_map, ?_⟩
    intro entry there ran
    obtain ⟨made, here⟩ := mem_live_iff.mp there
    obtain ⟨other, gone⟩ := kept.ranGone _ ran
    obtain ⟨item, also, same⟩ := List.mem_map.mp (kept.known _ gone)
    have one := kept.eq_of_serial also made (congrArg Prod.snd same)
    rw [one] at same
    exact here (same ▸ gone)

theorem Kept.leave (kept : Kept world) (threw : Bool) : Kept (world.leave threw) := by
  unfold World.leave
  split
  · exact kept
  next frame rest stack =>
    obtain ⟨walk, others⟩ := List.forall_mem_cons.mp (stack ▸ kept.frames)
    split
    · refine kept.walk rfl rfl rfl rfl others (kept.reports_append ⟨?_, nofun⟩)
      rw [← walk.walked]
      exact List.prefix_append _ _
    · refine kept.walk rfl rfl rfl rfl (List.forall_mem_cons.mpr ⟨?_, others⟩) kept.reports
      exact ⟨walk.walked, walk.known, walk.once, walk.past⟩

end

section

variable [DecidableEq F] {world : World E F}

theorem eraseP_eq_filter {list : List (Entry E F)} (serials : (list.map Entry.serial).Nodup)
    {listener : Listener E F} {entry : Entry E F}
    (first : list.find? (isListener listener) = some entry) :
    list.eraseP (isListener listener) =
      list.filter fun other => decide (other.serial ≠ entry.serial) := by
  induction list with
  | nil => rfl
  | cons head list ih =>
      obtain ⟨away, rest⟩ := List.nodup_cons.mp serials
      cases is : isListener listener head with
      | true =>
          rw [List.find?_cons_of_pos is] at first
          cases first
          rw [List.eraseP_cons_of_pos is, List.filter_cons_of_neg (by simp)]
          refine (List.filter_eq_self.mpr fun other there => decide_eq_true ?_).symm
          exact fun same => away (List.mem_map.mpr ⟨other, there, same⟩)
      | false =>
          have passed := Bool.eq_false_iff.mp is
          rw [List.find?_cons_of_neg passed] at first
          rw [List.eraseP_cons_of_neg passed, ih rest first, List.filter_cons_of_pos]
          exact decide_eq_true fun same =>
            away (List.mem_map.mpr ⟨entry, List.mem_of_find?_eq_some first, same.symm⟩)

theorem Sound.cut (sound : Sound world) (event : E) (listener : Listener E F) :
    Sound (world.cut event listener) := by
  have list := sound.registered_eq event
  have serials := sound.live_serials event
  cases first : found world.emitter event listener with
  | none =>
      refine sound.congr ?_ rfl ?_
      · change (off world.emitter event listener).2 = _
        rw [off, first]
        rfl
      · change world.gone ++ _ = _
        rw [first]
        exact List.append_nil _
  | some entry =>
      have taken := first
      unfold found at taken
      rw [list] at taken
      have live := List.mem_of_find?_eq_some taken
      have rest := eraseP_eq_filter serials taken
      generalize kept : (world.live event).eraseP (isListener listener) = others at rest
      have emitter : (world.cut event listener).emitter =
          if others = [] then erase equal world.emitter event
          else put equal world.emitter event others := by
        change (off world.emitter event listener).2 = _
        rw [off, first, list, kept]
        rfl
      have looked : lookup equal (world.cut event listener).emitter =
          Function.update (lookup equal world.emitter) event
            (if others = [] then none else some others) := by
        rw [emitter]
        split
        · exact lookup_erase_equal sound.distinct event
        · exact lookup_put_equal world.emitter event others
      refine sound.lose rfl [(event, entry.serial)] ?_ ?_ (List.nodup_singleton _) ?_
        (fun other => ?_) fun other => ?_
      · change world.gone ++ _ = _
        rw [first]
        rfl
      · intro item there
        exact List.mem_singleton.mp there ▸ mem_standing_of_live live
      · rw [emitter]
        split
        · exact sound.distinct.erase event
        · exact sound.distinct.put event _
      · unfold registered
        rw [looked]
        by_cases is : other = event
        · rw [is, Function.update_self]
          trans others
          · split
            next empty => rw [empty]; rfl
            · rfl
          · simp [rest]
        · rw [Function.update_of_ne is]
          refine (sound.registered_eq other).trans ?_
          simp [is]
      · rw [looked]
        by_cases is : other = event
        · rw [is, Function.update_self]
          split
          · simp
          next more => exact fun same => more (Option.some.inj same)
        · rw [Function.update_of_ne is]
          exact sound.lists_ne other

theorem Sound.mem_of_found (sound : Sound world) {event : E} {listener : Listener E F}
    {entry : Entry E F} (first : found world.emitter event listener = some entry) :
    entry ∈ world.live event ∧ entry.listener = listener := by
  unfold found at first
  rw [sound.registered_eq] at first
  have is : isListener listener entry = true := List.find?_some first
  exact ⟨List.mem_of_find?_eq_some first, of_decide_eq_true is⟩

theorem Sound.found_of_live (sound : Sound world) {event : E} {entry : Entry E F}
    (live : entry ∈ world.live event) :
    ∃ first, found world.emitter event entry.listener = some first := by
  cases first : found world.emitter event entry.listener with
  | some entry => exact ⟨entry, rfl⟩
  | none =>
      unfold found at first
      rw [sound.registered_eq] at first
      exact absurd (decide_eq_true rfl) (List.find?_eq_none.mp first entry live)

theorem Sound.cut_gone (sound : Sound world) {event : E} {entry : Entry E F}
    (made : (event, entry) ∈ world.made) {serial : Nat} {inner : F}
    (wrapper : entry.listener = .wrapper event serial inner) :
    (event, entry.serial) ∈ (world.cut event entry.listener).gone := by
  change _ ∈ world.gone ++ _
  rw [List.mem_append]
  by_cases gone : (event, entry.serial) ∈ world.gone
  · exact .inl gone
  · obtain ⟨first, is⟩ := sound.found_of_live (mem_live_iff.mpr ⟨made, gone⟩)
    obtain ⟨live, same⟩ := sound.mem_of_found is
    have own := sound.wrappers _ made event serial inner wrapper
    have other := sound.wrappers _ (mem_live_iff.mp live).1 event serial inner (same.trans wrapper)
    rw [is, ← own.2, other.2]
    exact .inr (List.mem_singleton_self _)

theorem Kept.cut (kept : Kept world) (event : E) (listener : Listener E F) :
    Kept (world.cut event listener) :=
  kept.mono (kept.toSound.cut event listener) rfl rfl kept.reports (fun _ there => there)
    fun _ there => List.mem_append_left _ there

theorem Kept.remove (kept : Kept world) (serial : Nat) (clear : Clear world (.remove serial)) :
    Kept (world.remove serial) := by
  unfold World.remove
  split
  · exact kept
  next event entry made =>
    have inMade := List.mem_of_getElem? made
    have number := kept.serial_of_get made
    refine kept.mono ((kept.toSound.cut event entry.listener).congr rfl rfl rfl) rfl rfl
      (kept.reports_append ?_) (fun _ there => there) fun _ there => List.mem_append_left _ there
    unfold Report.Right
    cases first : found world.emitter event entry.listener with
    | some other =>
        have same := clear event entry other made first
        have live := mem_standing_of_live (kept.mem_of_found first).1
        rw [same] at live
        rw [decide_eq_true live, ← same]
        rfl
    | none =>
        rw [decide_eq_false]
        · rfl
        · intro standing
          have gone := of_decide_eq_true (List.mem_filter.mp standing).2
          rw [← number] at gone
          obtain ⟨other, is⟩ := kept.found_of_live (mem_live_iff.mpr ⟨inMade, gone⟩)
          rw [first] at is
          cases is

theorem Kept.turn (kept : Kept world) (clear : Clear world .turn) : Kept world.turn := by
  unfold World.turn
  split
  · exact kept
  next frame rest stack =>
    obtain ⟨walk, others⟩ := List.forall_mem_cons.mp (stack ▸ kept.frames)
    split
    · exact kept
    · split
      next waiting =>
        refine kept.walk rfl rfl rfl rfl others (kept.reports_append ?_)
        have all := walk.walked
        rw [waiting, List.append_nil] at all
        exact ⟨all ▸ List.prefix_refl _, fun _ => all⟩
      next entry later waiting =>
        have first : entry ∈ frame.waiting := waiting ▸ List.mem_cons_self
        have made := walk.known entry first
        have more : ∀ other ∈ later, other ∈ frame.waiting := fun other there =>
          waiting ▸ List.mem_cons_of_mem _ there
        obtain ⟨away, laterOnce⟩ := List.nodup_cons.mp (waiting ▸ walk.once)
        have next : Walk world.made world.ran { frame with
            called := frame.called ++ [entry], waiting := later, running := true } :=
          ⟨by rw [List.append_assoc, ← walk.walked, waiting]; rfl,
            fun other there => walk.known other (more other there), laterOnce,
            fun other there => walk.past other (more other there)⟩
        have called : Kept { world with stack := { frame with
            called := frame.called ++ [entry], waiting := later, running := true } :: rest } :=
          kept.walk rfl rfl rfl rfl (List.forall_mem_cons.mpr ⟨next, others⟩) kept.reports
        unfold World.call
        split
        · exact called
        next event serial inner wrapper =>
          obtain ⟨rfl, number⟩ := kept.wrappers _ made event serial inner wrapper
          have off := called.cut frame.event entry.listener
          -- it has not run, and nothing has it to come
          have differ : ∀ {one}, Walk world.made world.ran one → entry ∉ one.waiting →
              Walk world.made (world.ran ++ [entry.serial]) one := by
            intro one walk apart
            refine ⟨walk.walked, walk.known, walk.once, fun other there ran => ?_⟩
            rcases List.mem_append.mp ran with old | new
            · exact walk.past other there old
            · have same := kept.eq_of_serial (walk.known other there) made
                (List.mem_singleton.mp new)
              exact apart ((Prod.mk.inj same).2 ▸ there)
          refine ⟨off.toSound.congr rfl rfl rfl, List.forall_mem_cons.mpr ⟨differ next away, ?_⟩,
            ?_, ?_, off.reports⟩
          · exact fun outer there => differ (others outer there)
              (clear frame rest entry later _ _ _ stack waiting wrapper outer there)
          · refine List.nodup_append.mpr ⟨kept.ranOnce, List.nodup_singleton _, ?_⟩
            rintro _ old _ new rfl
            exact walk.past entry first (List.mem_singleton.mp new ▸ old)
          · intro ran there
            rcases List.mem_append.mp there with old | new
            · exact off.ranGone ran old
            · rw [List.mem_singleton.mp new]
              exact ⟨frame.event, called.cut_gone made wrapper⟩

theorem Kept.step (kept : Kept world) {next : Act E F} (clear : Clear world next) :
    Kept (world.step next) := by
  have act : Kept (world.act next) := by
    cases next with
    | on event listener => exact kept.register event _ nofun
    | once event listener =>
        refine kept.register event _ fun event' serial inner is => ?_
        cases is
        exact ⟨rfl, rfl⟩
    | off event listener => exact kept.cut event _
    | remove serial => exact kept.remove serial clear
    | removeAllListeners event => exact kept.removeAllListeners event
    | emit event => exact kept.emit event
    | returns => exact kept.leave false
    | throws => exact kept.leave true
    | turn => exact kept.turn clear
  unfold World.step
  split
  · exact act
  · split
    · exact act
    · exact kept

theorem Kept.run (kept : Kept world) {acts : List (Act E F)} (clear : ClearRun world acts) :
    Kept (world.run acts) := by
  induction acts generalizing world with
  | nil => exact kept
  | cons next acts ih => exact ih (kept.step clear.1) clear.2

/-- In every run in which no emit calls a wrapper that a walk outside it has still to call, and no
remover finds another registration of its function, emitting is exact. -/
theorem emitting_exact (acts : List (Act E F)) (clear : ClearRun .new acts) :
    Exact ((.new : World E F).run acts) :=
  (new_kept.run clear).exact

end

/-- `on(0, f)`, `once(0, g)`, and then `emit(0)`. -/
def sampleRun : List (Act Nat Nat) :=
  [.on 0 0, .once 0 1, .emit 0, .turn, .returns, .turn, .returns, .turn]

theorem emitting_exact_sample :
    ClearRun (.new : World Nat Nat) sampleRun ∧ Exact ((.new : World Nat Nat).run sampleRun) := by
  have clear : ClearRun (.new : World Nat Nat) sampleRun := by
    refine ⟨trivial, trivial, trivial, ?_, trivial, ?_, trivial, ?_, trivial⟩ <;>
    · intro frame rest entry waiting event serial listener stack
      cases stack
      exact fun _ _ _ there => (nomatch there)
  exact ⟨clear, emitting_exact sampleRun clear⟩

/-- A listener that comes before emits again, and the wrapper is called by both emits; `f` is
registered twice, and the remover of the second registration removes the first. -/
theorem emitting_inexact :
    ¬Exact ((.new : World Nat Nat).run [.on 0 0, .once 0 1, .emit 0, .turn, .emit 0, .turn,
        .returns, .turn, .returns, .turn, .returns, .turn]) ∧
      ¬Exact ((.new : World Nat Nat).run [.on 0 0, .on 0 0, .remove 1]) := by
  constructor
  · exact fun exact => absurd exact.once (by decide)
  · intro exact
    have right := exact.reports (.removed 1 true [0]) List.mem_cons_self
    cases right

end CScript.Events
