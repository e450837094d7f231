/-
The cache of std:cache.

How recently a key was used is the place of its entry in the Map.  The clock is read again at
every question about an entry's age, so `fetch` can find an entry that it then no longer gets.
-/

import CScript.Foundation.OrderedMap
import Mathlib.Algebra.Field.Rat
import Mathlib.Algebra.Order.Ring.Unbundled.Rat
import Mathlib.Algebra.Order.Monoid.Unbundled.WithTop

namespace CScript.Cache

open Foundation.OrderedMap

structure Entry (V T : Type) where
  value : V
  storedAt : T

structure LruCache (K V T : Type) where
  capacity : WithTop ℚ
  entries : List (K × Entry V T)
  ttl : T
  hits : Nat
  misses : Nat
  evictions : Nat
  reads : Nat

variable {K V T : Type} [DecidableEq K]

section

variable [LinearOrder T] [Sub T] [Zero T] (clock : Nat → T)

namespace LruCache

def new (capacity : WithTop ℚ) (ttl : T) : LruCache K V T :=
  { capacity := capacity, entries := [], ttl := ttl, hits := 0, misses := 0, evictions := 0
    reads := 0 }

def read (cache : LruCache K V T) : LruCache K V T :=
  { cache with reads := cache.reads + 1 }

def stale (cache : LruCache K V T) (entry : Entry V T) : Prop :=
  cache.ttl ≤ clock cache.reads - entry.storedAt

instance (cache : LruCache K V T) (entry : Entry V T) : Decidable (cache.stale clock entry) :=
  inferInstanceAs (Decidable (_ ≤ _))

def expired (cache : LruCache K V T) (entry : Entry V T) : Bool × LruCache K V T :=
  if 0 < cache.ttl then (decide (cache.stale clock entry), cache.read) else (false, cache)

def get (cache : LruCache K V T) (key : K) : Option V × LruCache K V T :=
  match lookup equal cache.entries key with
  | none => (none, { cache with misses := cache.misses + 1 })
  | some entry =>
      let (dead, cache) := cache.expired clock entry
      let without := erase equal cache.entries key
      if dead then (none, { cache with entries := without, misses := cache.misses + 1 })
      else
        (some entry.value,
          { cache with entries := put equal without key entry, hits := cache.hits + 1 })

def has (cache : LruCache K V T) (key : K) : Bool × LruCache K V T :=
  match lookup equal cache.entries key with
  | none => (false, cache)
  | some entry =>
      let (dead, cache) := cache.expired clock entry
      if dead then (false, { cache with entries := erase equal cache.entries key })
      else (true, cache)

/-- The loop of `set`, which takes out the first entry. -/
def evictLoop (cache : LruCache K V T) : List (K × Entry V T) → LruCache K V T
  | [] => { cache with entries := [] }
  | entry :: rest =>
      if cache.capacity < ((entry :: rest).length : ℚ) then
        evictLoop { cache with evictions := cache.evictions + 1 } rest
      else { cache with entries := entry :: rest }

def set (cache : LruCache K V T) (key : K) (value : V) : LruCache K V T :=
  evictLoop cache.read (put equal (erase equal cache.entries key) key
    { value := value, storedAt := clock cache.reads })

def delete (cache : LruCache K V T) (key : K) : Bool × LruCache K V T :=
  ((lookup equal cache.entries key).isSome,
    { cache with entries := erase equal cache.entries key })

/-- The first loop of `prune`, which gathers the keys. -/
def deadLoop (cache : LruCache K V T) : List (K × Entry V T) → List K × LruCache K V T
  | [] => ([], cache)
  | (key, entry) :: rest =>
      let (dead, cache) := cache.expired clock entry
      let (keys, cache) := deadLoop cache rest
      (if dead then key :: keys else keys, cache)

def prune (cache : LruCache K V T) : Nat × LruCache K V T :=
  let (dead, cache) := cache.deadLoop clock cache.entries
  (dead.length, { cache with entries := dead.foldl (erase equal) cache.entries })

def nextLoop (cache : LruCache K V T) : List (K × Entry V T) →
    Option (K × V) × List (K × Entry V T) × LruCache K V T
  | [] => (none, [], cache)
  | (key, entry) :: rest =>
      let (dead, cache) := cache.expired clock entry
      if dead then nextLoop cache rest else (some (key, entry.value), rest, cache)

end LruCache

/-! ### Runs -/

structure Machine (K V T : Type) where
  cache : LruCache K V T
  building : List K
  iterators : List (List (K × Entry V T))

/-- `fetch` calls `build`, which may use the cache and then answers, or throws. -/
inductive Op (K V : Type) where
  | get (key : K)
  | has (key : K)
  | set (key : K) (value : V)
  | fetch (key : K)
  | built (value : V)
  | threw
  | delete (key : K)
  | prune
  | iterate
  | next (iterator : Nat)

inductive Answer (K V : Type) where
  | value (found : Option V)
  | bool (is : Bool)
  | count (number : Nat)
  | yields (item : Option (K × V))
  | building
  | nothing

def fetch (machine : Machine K V T) (key : K) : Answer K V × Machine K V T :=
  let (found, cache) := machine.cache.has clock key
  if found then
    let (value, cache) := cache.get clock key
    (.value value, { machine with cache := cache })
  else (.building, { machine with cache := cache, building := key :: machine.building })

def step (machine : Machine K V T) : Op K V → Answer K V × Machine K V T
  | .get key =>
      let (value, cache) := machine.cache.get clock key
      (.value value, { machine with cache := cache })
  | .has key =>
      let (found, cache) := machine.cache.has clock key
      (.bool found, { machine with cache := cache })
  | .set key value => (.nothing, { machine with cache := machine.cache.set clock key value })
  | .fetch key => fetch clock machine key
  | .built value =>
      match machine.building with
      | [] => (.nothing, machine)
      | key :: rest =>
          (.value (some value),
            { machine with cache := machine.cache.set clock key value, building := rest })
  | .threw => (.nothing, { machine with building := machine.building.tail })
  | .delete key =>
      let (removed, cache) := machine.cache.delete key
      (.bool removed, { machine with cache := cache })
  | .prune =>
      let (dropped, cache) := machine.cache.prune clock
      (.count dropped, { machine with cache := cache })
  | .iterate =>
      (.nothing, { machine with iterators := machine.iterators ++ [machine.cache.entries] })
  | .next iterator =>
      let (item, rest, cache) := machine.cache.nextLoop clock (machine.iterators.getD iterator [])
      (.yields item,
        { machine with cache := cache, iterators := machine.iterators.set iterator rest })

/-! ### What is asked for -/

/-- What was used in order, and how often `get` was called. -/
structure Past (K : Type) where
  uses : List K
  gets : Nat

def Older (uses : List K) (key other : K) : Prop :=
  ∃ before behind, uses = before ++ behind ∧ other ∈ behind ∧ key ∉ behind

def stores (machine : Machine K V T) : Op K V → Option K
  | .set key _ => some key
  | .built _ => machine.building.head?
  | _ => none

/-- `get` has answered. -/
def Past.got (past : Past K) (key : K) : Option V → Past K
  | some _ => { uses := past.uses ++ [key], gets := past.gets + 1 }
  | none => { past with gets := past.gets + 1 }

def Past.stored (past : Past K) : Option K → Past K
  | some key => { past with uses := past.uses ++ [key] }
  | none => past

def Past.after (past : Past K) (machine : Machine K V T) (answer : Answer K V) :
    Op K V → Past K
  | .get key | .fetch key =>
      match answer with
      | .value found => past.got key found
      | _ => past
  | op => past.stored (stores machine op)

def Fresh (cache : LruCache K V T) (key : K) (value : V) (reading : Nat) : Prop :=
  ∃ entry, lookup equal cache.entries key = some entry ∧ entry.value = value ∧
    (0 < cache.ttl → ¬cache.ttl ≤ clock reading - entry.storedAt)

def ticks (cache : LruCache K V T) : Nat :=
  if 0 < cache.ttl then 1 else 0

def Answers (machine : Machine K V T) : Op K V → Answer K V → Prop
  | .get key, answer => ∃ found, answer = .value found ∧
      ∀ value, found = some value → Fresh clock machine.cache key value machine.cache.reads
  | .has key, answer => ∃ found, answer = .bool found ∧ (found = true →
      ∃ value, Fresh clock machine.cache key value machine.cache.reads)
  | .fetch key, answer => answer = .building ∨ ∃ value, answer = .value (some value) ∧
      Fresh clock machine.cache key value (machine.cache.reads + ticks machine.cache)
  | .built value, answer => machine.building ≠ [] → answer = .value (some value)
  | _, _ => True

structure Right (past : Past K) (machine : Machine K V T) (op : Op K V) : Prop where
  answers : Answers clock machine op (step clock machine op).1
  bounded : ¬(step clock machine op).2.cache.capacity <
    ((step clock machine op).2.cache.entries.length : ℚ)
  counted : (step clock machine op).2.cache.hits + (step clock machine op).2.cache.misses =
    (past.after machine (step clock machine op).1 op).gets
  evicts : ∀ stored, stores machine op = some stored →
    ∀ lost ∈ stored :: machine.cache.entries.map Prod.fst,
      lost ∉ (step clock machine op).2.cache.entries.map Prod.fst →
      ∀ kept ∈ (step clock machine op).2.cache.entries.map Prod.fst,
        Older (past.after machine (step clock machine op).1 op).uses lost kept

def RightRun : Past K → Machine K V T → List (Op K V) → Prop
  | _, _, [] => True
  | past, machine, op :: ops => Right clock past machine op ∧
      RightRun (past.after machine (step clock machine op).1 op) (step clock machine op).2 ops

/-- What `has` finds in `fetch` is not too old when `get` looks at the clock again. -/
def Steady (machine : Machine K V T) : Op K V → Prop
  | .fetch key => ∀ entry, lookup equal machine.cache.entries key = some entry →
      0 < machine.cache.ttl → machine.cache.stale clock entry ∨
        ¬machine.cache.read.stale clock entry
  | _ => True

def SteadyRun : Machine K V T → List (Op K V) → Prop
  | _, [] => True
  | machine, op :: ops => Steady clock machine op ∧ SteadyRun (step clock machine op).2 ops

end

/-! ### Recency -/

section

variable {clock : Nat → T} {past : Past K} {cache : LruCache K V T}

omit [DecidableEq K] in
theorem Older.use {uses : List K} {key other used : K} (older : Older uses key other)
    (apart : key ≠ used) : Older (uses ++ [used]) key other := by
  obtain ⟨before, behind, rfl, inside, away⟩ := older
  refine ⟨before, behind ++ [used], List.append_assoc _ _ _, List.mem_append_left _ inside, ?_⟩
  rw [List.mem_append, List.mem_singleton]
  exact fun either => either.elim away apart

omit [DecidableEq K] in
theorem older_last (uses : List K) {key used : K} (apart : key ≠ used) :
    Older (uses ++ [used]) key used :=
  ⟨uses, [used], rfl, List.mem_cons_self, fun inside => apart (List.mem_singleton.mp inside)⟩

structure Sane (past : Past K) (cache : LruCache K V T) : Prop where
  distinct : Distinct equal cache.entries
  ordered : (cache.entries.map Prod.fst).Pairwise (Older past.uses)
  bounded : ¬cache.capacity < (cache.entries.length : ℚ)
  counted : cache.hits + cache.misses = past.gets

omit [DecidableEq K] in
theorem fewer {capacity : WithTop ℚ} {more less : Nat} (order : less ≤ more)
    (bounded : ¬capacity < (more : ℚ)) : ¬capacity < (less : ℚ) := by
  intro beyond
  refine bounded (lt_of_lt_of_le beyond ?_)
  exact_mod_cast order

theorem Sane.shrink (sane : Sane past cache) {other : LruCache K V T}
    (fromEntries : other.entries.Sublist cache.entries) (same : other.capacity = cache.capacity)
    (gets : other.hits + other.misses = past.gets) : Sane past other where
  distinct := sane.distinct.sublist fromEntries
  ordered := sane.ordered.sublist (fromEntries.map _)
  bounded := by
    rw [same]
    exact fewer fromEntries.length_le sane.bounded
  counted := gets

theorem put_erase {items : List (K × Entry V T)} (distinct : Distinct equal items) (key : K)
    (entry : Entry V T) :
    put equal (erase equal items key) key entry = erase equal items key ++ [(key, entry)] := by
  apply put_of_absent
  rw [lookup_erase_equal distinct, Function.update_self]

theorem Sane.move (sane : Sane past cache) (key : K) (entry : Entry V T) :
    Distinct equal (put equal (erase equal cache.entries key) key entry) ∧
      ((put equal (erase equal cache.entries key) key entry).map Prod.fst).Pairwise
        (Older (past.uses ++ [key])) := by
  refine ⟨(sane.distinct.erase key).put key entry, ?_⟩
  have others : ∀ other ∈ (erase equal cache.entries key).map Prod.fst, other ≠ key := by
    rintro other inside rfl
    rw [mem_keys_iff, lookup_erase_equal sane.distinct, Function.update_self] at inside
    cases inside
  rw [put_erase sane.distinct, List.map_append, List.pairwise_append]
  refine ⟨?_, List.pairwise_singleton _ _, ?_⟩
  · refine (sane.ordered.sublist ((erase_sublist _ _ _).map _)).imp_of_mem ?_
    exact fun inside _ older => older.use (others _ inside)
  · intro other inside last isLast
    rw [List.mem_singleton.mp isLast]
    exact older_last _ (others other inside)

theorem length_erase {items : List (K × Entry V T)} {key : K} {entry : Entry V T}
    (found : lookup equal items key = some entry) :
    (erase equal items key).length + 1 = items.length := by
  induction items with
  | nil => cases found
  | cons head rest ih =>
      unfold erase
      unfold lookup at found
      split
      · rfl
      next other =>
        rw [if_neg other] at found
        exact congrArg (· + 1) (ih found)

omit [DecidableEq K] in
theorem evictLoop_spec {items : List (K × Entry V T)} (room : ¬cache.capacity < ((0 : Nat) : ℚ)) :
    ∃ lost evictions, items = lost ++ (cache.evictLoop items).entries ∧
      cache.evictLoop items = { cache with
        entries := (cache.evictLoop items).entries, evictions := evictions } ∧
      ¬cache.capacity < ((cache.evictLoop items).entries.length : ℚ) := by
  induction items generalizing cache with
  | nil => exact ⟨[], _, rfl, rfl, room⟩
  | cons entry rest ih =>
      rw [LruCache.evictLoop]
      split
      · obtain ⟨lost, evictions, are, same, fits⟩ :=
          @ih { cache with evictions := cache.evictions + 1 } room
        refine ⟨entry :: lost, evictions, ?_, same, fits⟩
        rw [List.cons_append, ← are]
      · exact ⟨[], _, rfl, rfl, by assumption⟩

theorem Sane.set (sane : Sane past cache) (key : K) (value : V) :
    Sane { past with uses := past.uses ++ [key] } (cache.set clock key value) ∧
      ∀ lost ∈ key :: cache.entries.map Prod.fst,
        lost ∉ (cache.set clock key value).entries.map Prod.fst →
        ∀ kept ∈ (cache.set clock key value).entries.map Prod.fst,
          Older (past.uses ++ [key]) lost kept := by
  obtain ⟨distinct, ordered⟩ := sane.move key { value := value, storedAt := clock cache.reads }
  have keys : ∀ other ∈ key :: cache.entries.map Prod.fst,
      other ∈ (put equal (erase equal cache.entries key) key
        { value := value, storedAt := clock cache.reads }).map Prod.fst := by
    intro other there
    rw [mem_keys_iff, lookup_put_equal]
    by_cases is : other = key
    · rw [is, Function.update_self]
      rfl
    · rw [Function.update_of_ne is, lookup_erase_equal sane.distinct, Function.update_of_ne is,
        ← mem_keys_iff]
      exact (List.mem_cons.mp there).resolve_left is
  obtain ⟨lost, evictions, are, same, fits⟩ := @evictLoop_spec K V T cache.read
    (put equal (erase equal cache.entries key) key
      { value := value, storedAt := clock cache.reads }) (fewer (Nat.zero_le _) sane.bounded)
  unfold LruCache.set
  generalize cache.read.evictLoop _ = after at *
  rw [are] at distinct ordered keys
  rw [List.map_append] at ordered keys
  obtain ⟨-, kept, apart⟩ := List.pairwise_append.mp ordered
  refine ⟨⟨distinct.sublist (List.sublist_append_right _ _), kept, ?_, ?_⟩, ?_⟩
  · rw [same]
    exact fits
  · rw [same]
    exact sane.counted
  · intro other there away left inside
    exact apart other ((List.mem_append.mp (keys other there)).resolve_right away) left inside

/-! ### The clock -/

variable [LinearOrder T] [Sub T] [Zero T]

omit [DecidableEq K] in
theorem expired_eq (cache : LruCache K V T) (entry : Entry V T) :
    cache.expired clock entry = (decide (0 < cache.ttl ∧ cache.stale clock entry),
      { cache with reads := cache.reads + ticks cache }) := by
  unfold LruCache.expired ticks
  by_cases aging : 0 < cache.ttl
  · rw [if_pos aging, if_pos aging]
    simp only [aging, true_and]
    rfl
  · rw [if_neg aging, if_neg aging]
    simp only [aging, false_and, decide_false]
    rfl

def Dead (clock : Nat → T) (cache : LruCache K V T) (key : K) (entry : Entry V T) : Prop :=
  lookup equal cache.entries key = some entry ∧ 0 < cache.ttl ∧ cache.stale clock entry

def Live (clock : Nat → T) (cache : LruCache K V T) (key : K) (entry : Entry V T) : Prop :=
  lookup equal cache.entries key = some entry ∧ ¬(0 < cache.ttl ∧ cache.stale clock entry)

theorem cases_entry (clock : Nat → T) (cache : LruCache K V T) (key : K) :
    lookup equal cache.entries key = none ∨ (∃ entry, Dead clock cache key entry) ∨
      ∃ entry, Live clock cache key entry := by
  cases found : lookup equal cache.entries key with
  | none => exact .inl rfl
  | some entry =>
      by_cases aged : 0 < cache.ttl ∧ cache.stale clock entry
      · exact .inr (.inl ⟨entry, found, aged⟩)
      · exact .inr (.inr ⟨entry, found, aged⟩)

theorem Live.fresh {key : K} {entry : Entry V T} (live : Live clock cache key entry) :
    Fresh clock cache key entry.value cache.reads :=
  ⟨entry, live.1, rfl, fun aging stale => live.2 ⟨aging, stale⟩⟩

theorem get_absent {key : K} (absent : lookup equal cache.entries key = none) :
    cache.get clock key = (none, { cache with misses := cache.misses + 1 }) := by
  unfold LruCache.get
  rw [absent]

theorem get_dead {key : K} {entry : Entry V T} (dead : Dead clock cache key entry) :
    cache.get clock key = (none, { cache with
      entries := erase equal cache.entries key, misses := cache.misses + 1
      reads := cache.reads + ticks cache }) := by
  unfold LruCache.get
  rw [dead.1]
  dsimp only
  rw [expired_eq, decide_eq_true dead.2]
  rfl

theorem get_live {key : K} {entry : Entry V T} (live : Live clock cache key entry) :
    cache.get clock key = (some entry.value, { cache with
      entries := put equal (erase equal cache.entries key) key entry, hits := cache.hits + 1
      reads := cache.reads + ticks cache }) := by
  unfold LruCache.get
  rw [live.1]
  dsimp only
  rw [expired_eq, decide_eq_false live.2]
  rfl

theorem has_absent {key : K} (absent : lookup equal cache.entries key = none) :
    cache.has clock key = (false, cache) := by
  unfold LruCache.has
  rw [absent]

theorem has_dead {key : K} {entry : Entry V T} (dead : Dead clock cache key entry) :
    cache.has clock key = (false, { cache with
      entries := erase equal cache.entries key, reads := cache.reads + ticks cache }) := by
  unfold LruCache.has
  rw [dead.1]
  dsimp only
  rw [expired_eq, decide_eq_true dead.2]
  rfl

theorem has_live {key : K} {entry : Entry V T} (live : Live clock cache key entry) :
    cache.has clock key = (true, { cache with reads := cache.reads + ticks cache }) := by
  unfold LruCache.has
  rw [live.1]
  dsimp only
  rw [expired_eq, decide_eq_false live.2]
  rfl

omit [DecidableEq K] in
theorem deadLoop_snd (cache : LruCache K V T) (items : List (K × Entry V T)) :
    ∃ reads, (cache.deadLoop clock items).2 = { cache with reads := reads } := by
  induction items generalizing cache with
  | nil => exact ⟨_, rfl⟩
  | cons item rest ih =>
      rw [LruCache.deadLoop, expired_eq]
      exact ih _

omit [DecidableEq K] in
theorem nextLoop_cache (cache : LruCache K V T) (items : List (K × Entry V T)) :
    ∃ reads, (cache.nextLoop clock items).2.2 = { cache with reads := reads } := by
  induction items generalizing cache with
  | nil => exact ⟨_, rfl⟩
  | cons item rest ih =>
      rw [LruCache.nextLoop, expired_eq]
      dsimp only
      split
      · exact ih _
      · exact ⟨_, rfl⟩

omit [LinearOrder T] [Sub T] [Zero T] in
theorem foldl_erase_sublist (keys : List K) (items : List (K × Entry V T)) :
    (keys.foldl (erase equal) items).Sublist items := by
  induction keys generalizing items with
  | nil => exact List.Sublist.refl _
  | cons key keys ih => exact (ih _).trans (erase_sublist _ _ _)

/-! ### Steps -/

theorem Sane.get (sane : Sane past cache) (key : K) :
    Sane (past.got key (cache.get clock key).1) (cache.get clock key).2 := by
  have counted := sane.counted
  rcases cases_entry clock cache key with absent | ⟨entry, dead⟩ | ⟨entry, live⟩
  · rw [get_absent absent]
    exact ⟨sane.distinct, sane.ordered, sane.bounded, congrArg (· + 1) counted⟩
  · rw [get_dead dead]
    have less := erase_sublist equal cache.entries key
    exact ⟨sane.distinct.sublist less, sane.ordered.sublist (less.map _),
      fewer less.length_le sane.bounded, congrArg (· + 1) counted⟩
  · rw [get_live live]
    obtain ⟨distinct, ordered⟩ := sane.move key entry
    refine ⟨distinct, ordered, ?_, (Nat.succ_add _ _).trans (congrArg (· + 1) counted)⟩
    dsimp only
    rw [put_erase sane.distinct, List.length_append, List.length_singleton, length_erase live.1]
    exact sane.bounded

theorem Sane.has (sane : Sane past cache) (key : K) : Sane past (cache.has clock key).2 := by
  rcases cases_entry clock cache key with absent | ⟨entry, dead⟩ | ⟨entry, live⟩
  · rw [has_absent absent]
    exact sane
  · rw [has_dead dead]
    exact sane.shrink (erase_sublist _ _ _) rfl sane.counted
  · rw [has_live live]
    exact sane.shrink (List.Sublist.refl _) rfl sane.counted

omit [LinearOrder T] [Sub T] [Zero T] in
theorem Sane.reread (sane : Sane past cache) {other : LruCache K V T}
    (same : ∃ reads, other = { cache with reads := reads }) : Sane past other := by
  obtain ⟨reads, rfl⟩ := same
  exact sane.shrink (List.Sublist.refl _) rfl sane.counted

theorem step_sane {machine : Machine K V T} (sane : Sane past machine.cache) (op : Op K V) :
    Sane (past.after machine (step clock machine op).1 op) (step clock machine op).2.cache := by
  cases op with
  | get key => exact sane.get key
  | has key => exact sane.has key
  | set key value => exact (sane.set key value).1
  | fetch key =>
      unfold step fetch
      dsimp only
      split
      · exact (sane.has key).get key
      · exact sane.has key
  | built value =>
      unfold step Past.after stores
      cases machine.building with
      | nil => exact sane
      | cons key rest => exact (sane.set key value).1
  | threw => exact sane
  | delete key => exact sane.shrink (erase_sublist _ _ _) rfl sane.counted
  | prune =>
      obtain ⟨reads, same⟩ := @deadLoop_snd K V T clock _ _ _ machine.cache machine.cache.entries
      unfold step LruCache.prune
      dsimp only
      rw [same]
      exact sane.shrink (foldl_erase_sublist _ _) rfl sane.counted
  | iterate => exact sane
  | next iterator => exact sane.reread (nextLoop_cache _ _)

theorem fetch_answers {machine : Machine K V T} {key : K} :
    Answers clock machine (.fetch key) (step clock machine (.fetch key)).1 ↔
      Steady clock machine (.fetch key) := by
  unfold step fetch
  dsimp only
  rcases cases_entry clock machine.cache key with absent | ⟨entry, dead⟩ | ⟨entry, live⟩
  · rw [has_absent absent]
    refine iff_of_true (.inl rfl) fun entry found => ?_
    rw [absent] at found
    cases found
  · rw [has_dead dead]
    refine iff_of_true (.inl rfl) fun other found _ => .inl ?_
    rw [dead.1] at found
    cases found
    exact dead.2.2
  · rw [has_live live]
    dsimp only
    rw [if_pos rfl]
    let later : LruCache K V T :=
      { machine.cache with reads := machine.cache.reads + ticks machine.cache }
    have second : ∀ other, 0 < machine.cache.ttl → (later.stale clock other ↔
        machine.cache.read.stale clock other) := by
      intro other aging
      unfold LruCache.stale
      rw [show later.reads = machine.cache.read.reads from
        congrArg (machine.cache.reads + ·) (if_pos aging)]
      rfl
    rcases cases_entry clock later key with absent | ⟨entry', dead⟩ | ⟨entry', live'⟩
    · rw [show lookup equal later.entries key = some entry from live.1] at absent
      cases absent
    · rw [get_dead dead]
      refine iff_of_false ?_ fun steady => ?_
      · rintro (is | ⟨value, is, -⟩) <;> cases is
      · obtain ⟨found, aging, old⟩ := dead
        rcases steady entry' found aging with first | fresh
        · cases live.1.symm.trans found
          exact live.2 ⟨aging, first⟩
        · exact fresh ((second entry' aging).mp old)
    · rw [get_live live']
      refine iff_of_true (.inr ⟨_, rfl, live'.fresh⟩) fun other found aging => .inr fun old => ?_
      cases live'.1.symm.trans found
      exact live'.2 ⟨aging, (second _ aging).mpr old⟩

theorem step_answers {machine : Machine K V T} {op : Op K V} (other : ∀ key, op ≠ .fetch key) :
    Answers clock machine op (step clock machine op).1 := by
  cases op with
  | get key =>
      refine ⟨(machine.cache.get clock key).1, rfl, fun value found => ?_⟩
      rcases cases_entry clock machine.cache key with absent | ⟨entry, dead⟩ | ⟨entry, live⟩
      · rw [get_absent absent] at found
        cases found
      · rw [get_dead dead] at found
        cases found
      · rw [get_live live] at found
        cases found
        exact live.fresh
  | has key =>
      refine ⟨(machine.cache.has clock key).1, rfl, fun found => ?_⟩
      rcases cases_entry clock machine.cache key with absent | ⟨entry, dead⟩ | ⟨entry, live⟩
      · rw [has_absent absent] at found
        cases found
      · rw [has_dead dead] at found
        cases found
      · exact ⟨entry.value, live.fresh⟩
  | fetch key => exact absurd rfl (other key)
  | built value =>
      intro some
      unfold step
      cases building : machine.building with
      | nil => exact absurd building some
      | cons key rest => rfl
  | _ => trivial

theorem right_iff {machine : Machine K V T} (sane : Sane past machine.cache) (op : Op K V) :
    Right clock past machine op ↔ Steady clock machine op := by
  have after := @step_sane K V T _ clock past _ _ _ machine sane op
  have answers : Answers clock machine op (step clock machine op).1 ↔ Steady clock machine op := by
    cases op with
    | fetch key => exact fetch_answers
    | _ => exact iff_of_true (step_answers fun _ is => nomatch is) trivial
  refine ⟨fun right => answers.mp right.answers,
    fun steady => ⟨answers.mpr steady, after.bounded, after.counted, ?_⟩⟩
  intro stored is
  obtain ⟨cache, building, iterators⟩ := machine
  cases op with
  | set key value =>
      obtain rfl := Option.some.inj is
      exact (sane.set _ value).2
  | built value =>
      cases building with
      | nil => cases is
      | cons key rest =>
          obtain rfl := Option.some.inj is
          exact (sane.set _ value).2
  | _ => cases is

theorem rightRun_iff {machine : Machine K V T} (sane : Sane past machine.cache)
    (ops : List (Op K V)) : RightRun clock past machine ops ↔ SteadyRun clock machine ops := by
  induction ops generalizing past machine with
  | nil => exact Iff.rfl
  | cons op ops ih => exact and_congr (right_iff sane op) (ih (step_sane sane op))

end

/-- A cache does in every run what it is there for, if no `fetch` finds an entry that is too old
by the time it gets it. -/
theorem cache_right_iff [LinearOrder T] [Sub T] [Zero T] (clock : Nat → T) {capacity : WithTop ℚ}
    (room : 1 ≤ capacity) (ttl : T) (ops : List (Op K V)) :
    RightRun clock { uses := [], gets := 0 }
        { cache := .new capacity ttl, building := [], iterators := [] } ops ↔
      SteadyRun clock { cache := .new capacity ttl, building := [], iterators := [] } ops := by
  have empty : ¬capacity < ((0 : Nat) : ℚ) := by
    intro full
    have beyond : ((1 : ℚ) : WithTop ℚ) < ((0 : Nat) : ℚ) := lt_of_le_of_lt room full
    exact absurd (WithTop.coe_lt_coe.mp beyond) (by decide)
  have sane : Sane { uses := [], gets := 0 } (.new capacity ttl : LruCache K V T) :=
    ⟨List.Pairwise.nil, List.Pairwise.nil, empty, rfl⟩
  exact rightRun_iff sane ops

/-- The clock says 0 when the value is stored and when `has` asks, and 5 when `get` does. -/
def ticking (reading : Nat) : Int :=
  if reading < 2 then 0 else 5

/-- With two readings in one `fetch` the entry expires in between. -/
theorem fetch_expires :
    ¬∀ (K V T : Type) [DecidableEq K] [LinearOrder T] [Sub T] [Zero T] (clock : Nat → T)
      (capacity : WithTop ℚ) (_ : 1 ≤ capacity) (ttl : T) (ops : List (Op K V)),
      RightRun clock { uses := [], gets := 0 }
        { cache := .new capacity ttl, building := [], iterators := [] } ops := by
  intro all
  have right := (all Bool Bool Int ticking ⊤ le_top 5 [.set true true, .fetch true]).2.1.answers
  rcases right with is | ⟨value, is, -⟩ <;> cases is

theorem cache_right_iff_first :
    (1 : WithTop ℚ) ≤ 1 ∧ (RightRun (fun _ => (0 : Int)) { uses := [], gets := 0 }
        { cache := .new 1 5, building := [], iterators := [] } [.set true true, .fetch true] ↔
      SteadyRun (fun _ => (0 : Int)) { cache := .new 1 5, building := [], iterators := [] }
        [.set true true, .fetch true]) :=
  ⟨le_refl 1, cache_right_iff (fun _ => (0 : Int)) (le_refl 1) 5 [.set true true, .fetch true]⟩

end CScript.Cache
