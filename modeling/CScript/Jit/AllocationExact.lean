/-
When the allocator is right, exactly.

With a pool that is large enough every register that can have a home gets one, so
one that is read before its definition is read from a machine register that holds
something else.  The homes of promoted slots and constants are at the other end
of the pool.
-/

import CScript.Jit.AllocationSound

namespace CScript.Jit.Allocation

variable {ir : IrFunction} {pool : Pool} {block : List IrInst} {index : Nat} {inst : IrInst}
  {scan : Scan}

/-! ### A large pool -/

structure Roomy (ir : IrFunction) (block : List IrInst) (index : Nat) (scan : Scan) : Prop where
  free : ∀ place, index ≤ place → scan.holder place = none
  assigned : ∀ (j : Nat) (inst : IrInst), j < index → block[j]? = some inst →
    Allocatable ir block inst → scan.assignment inst.result ≠ none

private theorem release_none (ir : IrFunction) (block : List IrInst) (index : Nat) {place : Nat}
    {holder : Nat → Option Int} (free : holder place = none) :
    release ir block index holder place = none := by
  unfold release
  rw [free]
  rfl

private theorem freePlace_le {holder : Nat → Option Int} {place : Nat}
    (inPool : place < pool.size - pool.reserved) (free : holder place = none) :
    ∃ found, freePlace pool holder = some found ∧ found ≤ place := by
  unfold freePlace
  generalize pool.size - pool.reserved = count at inPool
  induction count with
  | zero => omega
  | succ count ih =>
      rw [List.range_succ, List.find?_append]
      by_cases top : place = count
      · cases earlier : (List.range count).find? fun place => (holder place).isNone with
        | none =>
            refine ⟨count, ?_, Nat.le_of_eq top.symm⟩
            rw [Option.none_or, List.find?_cons, ← top, free]
            rfl
        | some found =>
            have below := List.mem_range.mp (List.mem_of_find?_eq_some earlier)
            exact ⟨found, rfl, by omega⟩
      · obtain ⟨found, same, le⟩ := ih (by omega)
        rw [same]
        exact ⟨found, rfl, le⟩

theorem Roomy.step (roomy : Roomy ir block index scan) (found : block[index]? = some inst)
    (large : index < pool.size - pool.reserved) :
    Roomy ir block (index + 1) (allocateInst ir pool block index inst scan) := by
  have empty := release_none ir block index (roomy.free index (Nat.le_refl _))
  obtain ⟨chosen, chosenFree, chosenLe⟩ := freePlace_le large empty
  obtain ⟨refused, same⟩ | ⟨place, _, taken, same⟩ :=
    allocateInst_cases ir pool block index inst scan
  · rw [same]
    constructor
    · exact fun place above => release_none ir block index (roomy.free place (by omega))
    · intro j earlier below earlierAt allocatable
      by_cases here : j = index
      · subst here
        rw [found] at earlierAt
        cases earlierAt
        cases refused with
        | inl never => exact absurd allocatable never
        | inr full =>
            rw [chosenFree] at full
            cases full
      · exact roomy.assigned j earlier (by omega) earlierAt allocatable
  · rw [same]
    rw [chosenFree] at taken
    cases taken
    constructor
    · intro place above
      dsimp only
      rw [Function.update_of_ne (by omega)]
      exact release_none ir block index (roomy.free place (by omega))
    · intro j earlier below earlierAt allocatable
      dsimp only
      by_cases same : earlier.result = inst.result
      · rw [same, Function.update_self]
        exact Option.some_ne_none _
      · rw [Function.update_of_ne same]
        have other : j ≠ index := by
          intro here
          subst here
          rw [found] at earlierAt
          cases earlierAt
          exact same rfl
        exact roomy.assigned j earlier (by omega) earlierAt allocatable

theorem Roomy.run (done rest : List IrInst) (split : block = done ++ rest)
    (large : block.length ≤ pool.size - pool.reserved)
    (roomy : Roomy ir block done.length scan) :
    Roomy ir block block.length (scanFrom ir pool block done.length rest scan) := by
  induction rest generalizing done scan with
  | nil =>
      rw [List.append_nil] at split
      subst split
      exact roomy
  | cons inst rest ih =>
      have found : block[done.length]? = some inst := by
        rw [split, List.getElem?_append_right (Nat.le_refl _), Nat.sub_self]
        rfl
      have bound := (List.getElem?_eq_some_iff.mp found).1
      have next := roomy.step found (show done.length < pool.size - pool.reserved by omega)
      have shifted : block = (done ++ [inst]) ++ rest := by
        rw [split, List.append_assoc]
        rfl
      have counted : (done ++ [inst]).length = done.length + 1 := List.length_append
      rw [← counted] at next
      have finished := ih (done ++ [inst]) shifted next
      rw [counted] at finished
      exact finished

theorem allocateBlock_assigns (home : Int → Option Nat)
    (large : block.length ≤ pool.size - pool.reserved) (member : inst ∈ block)
    (allocatable : Allocatable ir block inst) :
    allocateBlock ir pool home block inst.result ≠ none := by
  obtain ⟨j, at_⟩ := List.getElem?_of_mem member
  have start : Roomy ir block ([] : List IrInst).length ⟨fun _ => none, home⟩ :=
    ⟨fun _ _ => rfl, fun j _ below => absurd below (Nat.not_lt_zero j)⟩
  exact (Roomy.run [] block rfl large start).assigned j inst (List.getElem?_eq_some_iff.mp at_).1 at_
    allocatable

/-! ### A home is not taken back -/

theorem scanFrom_keeps {register : Int} {rest : List IrInst}
    (has : scan.assignment register ≠ none) :
    (scanFrom ir pool block index rest scan).assignment register ≠ none := by
  induction rest generalizing index scan with
  | nil => exact has
  | cons inst rest ih =>
      refine ih ?_
      obtain ⟨_, same⟩ | ⟨place, _, _, same⟩ :=
        allocateInst_cases ir pool block index inst scan
      · rw [same]
        exact has
      · rw [same]
        dsimp only
        by_cases equal : register = inst.result
        · rw [equal, Function.update_self]
          exact Option.some_ne_none _
        · rw [Function.update_of_ne equal]
          exact has

theorem allocateBlocks_keep {register : Int} {blocks : List (List IrInst)}
    {home : Int → Option Nat} (has : home register ≠ none) :
    blocks.foldl (allocateBlock ir pool) home register ≠ none := by
  induction blocks generalizing home with
  | nil => exact has
  | cons block rest ih => exact ih (scanFrom_keeps has)

theorem csJitAllocateRegisters_assigns (found : block ∈ ir.blocks)
    (large : block.length ≤ pool.size - pool.reserved) (member : inst ∈ block)
    (allocatable : Allocatable ir block inst) :
    csJitAllocateRegisters ir pool inst.result ≠ none := by
  obtain ⟨before, after, split⟩ := List.append_of_mem found
  unfold csJitAllocateRegisters
  rw [split, List.foldl_append, List.foldl_cons]
  exact allocateBlocks_keep (allocateBlock_assigns _ large member allocatable)

theorem readsAfterDefinition_of_sound (single : SingleAssignment ir)
    (sound : ∀ pool : Pool, pool.Distinct → Sound ir pool (csJitAllocateRegisters ir pool)) :
    ReadsAfterDefinition ir := by
  intro b i j register inst read found result ordinary alone
  by_contra early
  obtain ⟨reader, readerAt, reads, inside⟩ := id read
  obtain ⟨names, uses⟩ := IrInst.reads_named reads
  obtain ⟨block, blockAt, instAt⟩ := inst?_eq_some.mp found
  obtain ⟨same, sameAt, readerIn⟩ := inst?_eq_some.mp readerAt
  rw [blockAt] at sameAt
  cases sameAt
  have nonneg : 0 ≤ register := (of_decide_eq_true inside).1
  have stays : escapes ir register = false := by
    rw [← Bool.not_eq_true]
    intro marked
    obtain ⟨c, k, named, namedAt, namedHere, elsewhere⟩ := named_of_escapes marked
    rw [alone c k named namedAt namedHere] at elsewhere
    exact elsewhere (definedIn_iff single nonneg found result)
  obtain ⟨last, used, _⟩ := lastUse_of_used inside readerIn uses
  subst result
  have allocatable : Allocatable ir block inst :=
    ⟨nonneg, stays, ordinary, Option.isSome_iff_exists.mpr ⟨last, used⟩⟩
  have has : csJitAllocateRegisters ir ⟨block.length, id, 0⟩ inst.result ≠ none :=
    csJitAllocateRegisters_assigns (List.mem_of_getElem? blockAt) (Nat.le_refl _)
      (List.mem_of_getElem? instAt) allocatable
  exact has ((sound ⟨block.length, id, 0⟩ fun _ _ _ _ same => same).inMemory b i b j inst.result
    read ⟨inst, found, rfl⟩ (Or.inr (Nat.le_of_not_lt early)))

/-! ### On-stack replacement -/

theorem readsAfterDefinition_of_selfContained (single : SingleAssignment ir)
    (contained : csJitBlocksAreSelfContained ir = true) : ReadsAfterDefinition ir := by
  rintro b i j register inst ⟨reader, readerAt, reads, inside⟩ found result _ _
  obtain ⟨block, blockAt, readerIn⟩ := inst?_eq_some.mp readerAt
  unfold csJitBlocksAreSelfContained at contained
  have here := List.all_eq_true.mp contained block (List.mem_of_getElem? blockAt)
  have atReader := List.all_eq_true.mp here i
    (List.mem_range.mpr (List.getElem?_eq_some_iff.mp readerIn).1)
  rw [readerIn, Option.all_some] at atReader
  have atRegister := List.all_eq_true.mp atReader register reads
  have range := of_decide_eq_true inside
  rw [decide_eq_true (show 0 ≤ register ∧ register ≤ ir.registerCount by omega), Bool.not_true,
    Bool.false_or, List.any_eq_true] at atRegister
  obtain ⟨earlier, member, earlierResult⟩ := atRegister
  obtain ⟨k, earlierAt⟩ := List.getElem?_of_mem member
  have below := (List.getElem?_eq_some_iff.mp earlierAt).1
  rw [List.length_take] at below
  rw [List.getElem?_take_of_lt (by omega)] at earlierAt
  have same : earlier.result = register := of_decide_eq_true earlierResult
  have position := single b k b j earlier inst
    (inst?_eq_some.mpr ⟨block, blockAt, earlierAt⟩) found (by omega) (same.trans result.symm)
  omega

/-! ### What is reserved -/

section Reserved

variable {safe : Bool} {promotable : Nat → Bool} {promotion : Promotion} {constants : Constants}

theorem csJitAllocPool_injective (safe : Bool) {i j : Nat}
    (same : csJitAllocPool safe i = csJitAllocPool safe j) : i = j := by
  unfold csJitAllocPool at same
  cases safe <;> simp only [Bool.false_eq_true, if_true, if_false] at same <;> grind

structure Promoted (safe : Bool) (promotion : Promotion) : Prop where
  bound : promotion.promotedCount ≤ csJitPoolSize safe / 2
  place : ∀ slot machine, promotion.slotHome slot = some machine →
    ∃ taken < promotion.promotedCount,
      machine = csJitAllocPool safe (csJitPoolSize safe - 1 - taken)

theorem Promoted.step (promoted : Promoted safe promotion) (promotable : Nat → Bool) (slot : Nat) :
    Promoted safe (promoteSlot safe promotable promotion slot) := by
  unfold promoteSlot
  split
  next fits =>
    rw [Bool.and_eq_true, decide_eq_true_eq] at fits
    refine ⟨fits.2, fun other machine has => ?_⟩
    dsimp only at has ⊢
    by_cases here : other = slot
    · rw [here, Function.update_self] at has
      cases has
      exact ⟨_, Nat.lt_succ_self _, rfl⟩
    · rw [Function.update_of_ne here] at has
      obtain ⟨taken, below, same⟩ := promoted.place other machine has
      exact ⟨taken, Nat.lt_succ_of_lt below, same⟩
  next => exact promoted

theorem Promoted.run (promoted : Promoted safe promotion) (slots : List Nat) :
    Promoted safe (slots.foldl (promoteSlot safe promotable) promotion) := by
  induction slots generalizing promotion with
  | nil => exact promoted
  | cons slot rest ih => exact ih (promoted.step promotable slot)

structure Materialised (safe : Bool) (promotedCount : Nat) (constants : Constants) : Prop where
  bound : promotedCount + constants.home.length ≤ csJitPoolSize safe / 2
  place : ∀ machine ∈ constants.home, ∃ taken, taken < promotedCount + constants.home.length ∧
    machine = csJitAllocPool safe (csJitPoolSize safe - 1 - taken)

theorem Materialised.step {promotedCount : Nat}
    (materialised : Materialised safe promotedCount constants) (inst : IrInst) :
    Materialised safe promotedCount (placeConstant safe promotedCount constants inst) := by
  unfold placeConstant
  split
  next => exact materialised
  next fits =>
    have room : promotedCount + constants.home.length < csJitPoolSize safe / 2 :=
      Nat.lt_of_not_le fun full => fits (Or.inr (Or.inr full))
    have counted : (constants.home ++ [csJitAllocPool safe (csJitPoolSize safe - 1 -
        promotedCount - constants.home.length)]).length = constants.home.length + 1 :=
      List.length_append
    constructor
    · dsimp only
      omega
    · intro machine member
      dsimp only at member ⊢
      rw [counted]
      cases List.mem_append.mp member with
      | inl earlier =>
          obtain ⟨taken, below, same⟩ := materialised.place machine earlier
          exact ⟨taken, by omega, same⟩
      | inr last =>
          refine ⟨promotedCount + constants.home.length, by omega, ?_⟩
          rw [List.mem_singleton.mp last, Nat.sub_sub (csJitPoolSize safe - 1)]

theorem Materialised.run {promotedCount : Nat}
    (materialised : Materialised safe promotedCount constants) (insts : List IrInst) :
    Materialised safe promotedCount
      (insts.foldl (placeConstant safe promotedCount) constants) := by
  induction insts generalizing constants with
  | nil => exact materialised
  | cons inst rest ih => exact ih (materialised.step inst)

theorem csJitCompile_promoted (ir : IrFunction) (promotable : Nat → Bool) :
    Promoted (callSafe ir) (csJitCompile ir promotable).promotion :=
  Promoted.run ⟨Nat.zero_le _, fun _ _ has => absurd has (Option.some_ne_none _).symm⟩ _

theorem csJitCompile_materialised (ir : IrFunction) (promotable : Nat → Bool) :
    Materialised (callSafe ir) (csJitCompile ir promotable).promotion.promotedCount
      (csJitCompile ir promotable).constants :=
  Materialised.run ⟨(csJitCompile_promoted ir promotable).bound, fun _ member =>
    absurd member List.not_mem_nil⟩ _

theorem csJitCompile_distinct (ir : IrFunction) (promotable : Nat → Bool) :
    (csJitCompile ir promotable).pool.Distinct :=
  fun _ _ _ _ same => csJitAllocPool_injective _ same

def ReservedApart (ir : IrFunction) (promotable : Nat → Bool) : Prop :=
  ∀ register machine,
    csJitAllocateRegisters ir (csJitCompile ir promotable).pool register = some machine →
    (∀ slot, (csJitCompile ir promotable).promotion.slotHome slot ≠ some machine) ∧
      machine ∉ (csJitCompile ir promotable).constants.home

theorem reservedApart (single : SingleAssignment ir) (promotable : Nat → Bool) :
    ReservedApart ir promotable := by
  intro register machine has
  have distinct := csJitCompile_distinct ir promotable
  have promoted := csJitCompile_promoted ir promotable
  have materialised := csJitCompile_materialised ir promotable
  have spoken : ∀ taken, taken < (csJitCompile ir promotable).pool.reserved →
      machine ≠ csJitAllocPool (callSafe ir) (csJitPoolSize (callSafe ir) - 1 - taken) := by
    intro taken below same
    have bound : (csJitCompile ir promotable).pool.reserved ≤ csJitPoolSize (callSafe ir) / 2 :=
      materialised.bound
    have size : (csJitCompile ir promotable).pool.size = csJitPoolSize (callSafe ir) := rfl
    exact (csJitAllocateRegisters_allocated single distinct).apart distinct has
      (show csJitPoolSize (callSafe ir) - 1 - taken < _ by omega) (by omega) same.symm
  constructor
  · intro slot home
    obtain ⟨taken, below, same⟩ := promoted.place slot machine home
    exact spoken taken (Nat.lt_of_lt_of_le below (Nat.le_add_right _ _)) same
  · intro member
    obtain ⟨taken, below, same⟩ := materialised.place machine member
    exact spoken taken below same

end Reserved

/-! ### The allocator -/

/-- Whatever the pool and what is spoken for, live values are kept apart exactly
where no register is read before its definition. -/
theorem csJitAllocateRegisters_sound_iff (single : SingleAssignment ir) :
    ((∀ pool : Pool, pool.Distinct → Sound ir pool (csJitAllocateRegisters ir pool)) ∧
      ∀ promotable, ReservedApart ir promotable) ↔ ReadsAfterDefinition ir := by
  constructor
  · exact fun sound => readsAfterDefinition_of_sound single sound.1
  · intro ordered
    refine ⟨fun pool distinct => ?_, reservedApart single⟩
    exact (csJitAllocateRegisters_allocated single distinct).sound single distinct ordered

/-! ### Two small functions -/

theorem SingleAssignment.of_place (place : Int → Nat × Nat)
    (placed : ∀ b i inst, ir.inst? b i = some inst → 0 ≤ inst.result →
      (b, i) = place inst.result) : SingleAssignment ir := by
  intro b i c j first second firstAt secondAt nonneg same
  have places : (b, i) = (c, j) := by
    rw [placed b i first firstAt nonneg, placed c j second secondAt (same ▸ nonneg), same]
  exact Prod.mk.inj places

def negatedConstant : IrFunction :=
  { blocks := [[⟨.const, 0, -1, -1, -1, 0⟩, ⟨.neg, 1, 0, -1, -1, 0⟩, ⟨.return_, -1, 1, -1, -1, 0⟩]]
    registerCount := 2
    slotCount := 0 }

theorem negatedConstant_single : SingleAssignment negatedConstant := by
  refine SingleAssignment.of_place (fun register => (0, register.toNat)) ?_
  rintro (_ | b) (_ | _ | _ | i) inst found nonneg <;> cases found
  · rfl
  · rfl
  · cases nonneg

theorem csJitAllocateRegisters_sound_negatedConstant :
    (∀ pool : Pool, pool.Distinct →
      Sound negatedConstant pool (csJitAllocateRegisters negatedConstant pool)) ∧
    ∀ promotable, ReservedApart negatedConstant promotable :=
  (csJitAllocateRegisters_sound_iff negatedConstant_single).mpr
    (readsAfterDefinition_of_selfContained negatedConstant_single (by decide))

/-- A loop that negates a register and then writes it for the next turn, and
another register after it. -/
def earlyRead : IrFunction :=
  { blocks :=
      [[⟨.jump, -1, 1, -1, -1, 0⟩],
        [⟨.neg, 1, 0, -1, -1, 0⟩, ⟨.const, 0, -1, -1, -1, 1⟩, ⟨.const, 2, -1, -1, -1, 2⟩,
          ⟨.storeLocal, -1, 1, 2, -1, 0⟩, ⟨.jump, -1, 1, -1, -1, 0⟩]]
    registerCount := 3
    slotCount := 1 }

theorem earlyRead_single : SingleAssignment earlyRead := by
  refine SingleAssignment.of_place
    (fun register => (1, if register = 0 then 1 else if register = 1 then 0 else 2)) ?_
  rintro (_ | _ | b) (_ | _ | _ | _ | _ | i) inst found nonneg <;> cases found
  · cases nonneg
  · rfl
  · rfl
  · rfl
  · cases nonneg
  · cases nonneg

/-- On the second turn the loop reads the one register and finds the other. -/
theorem csJitAllocateRegisters_merges :
    ¬∀ (ir : IrFunction) (pool : Pool), SingleAssignment ir → pool.Distinct →
      Sound ir pool (csJitAllocateRegisters ir pool) := by
  intro sound
  let pool : Pool := ⟨22, csJitAllocPool false, 0⟩
  have distinct : pool.Distinct := fun _ _ _ _ same => csJitAllocPool_injective false same
  have start : Reaches earlyRead (csJitAllocateRegisters earlyRead pool) (0, 0) fun _ => none :=
    .enter (Or.inl rfl)
  have firstTurn := start.step (.jump rfl rfl rfl : Flow earlyRead (0, 0) (1, 0))
  have writesBoth := firstTurn |>.step (.next rfl (by decide)) |>.step (.next rfl (by decide))
    |>.step (.next rfl (by decide))
  have secondTurn := writesBoth |>.step (.next rfl (by decide))
    |>.step (.jump rfl rfl rfl : Flow earlyRead (1, 4) (1, 0))
  have holds := (sound earlyRead pool earlyRead_single distinct).unmerged 1 0 _ 0 2 secondTurn
    ⟨_, rfl, by decide, by decide⟩ (by decide)
  revert holds
  decide

end CScript.Jit.Allocation
