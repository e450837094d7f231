/-
Whether a machine register still holds the value that is read from it.

An execution enters at the first block, or at a loop header where every block is
self-contained, and goes from instruction to instruction.  Each machine register
is tracked to the virtual register it was last written for.
-/

import CScript.Jit.AllocationScan

namespace CScript.Jit.Allocation

/-! ### Executions -/

inductive Flow (ir : IrFunction) : Nat × Nat → Nat × Nat → Prop
  | next {b i : Nat} {inst : IrInst} (at_ : ir.inst? b i = some inst)
      (stays : inst.op ∉ [IrOp.jump, .branch, .return_, .exit]) : Flow ir (b, i) (b, i + 1)
  | jump {b i target : Nat} {inst : IrInst} (at_ : ir.inst? b i = some inst)
      (op : inst.op = .jump) (goes : inst.a = target) : Flow ir (b, i) (target, 0)
  | branch {b i target : Nat} {inst : IrInst} (at_ : ir.inst? b i = some inst)
      (op : inst.op = .branch) (goes : inst.b = target ∨ inst.c = target) :
      Flow ir (b, i) (target, 0)
  | falls {b : Nat} {block : List IrInst} (at_ : ir.blocks[b]? = some block) :
      Flow ir (b, block.length) (b + 1, 0)

abbrev Owners := Nat → Option Int

def written (home : Int → Option Nat) (inst : Option IrInst) (owners : Owners) : Owners :=
  match inst with
  | none => owners
  | some inst =>
      match home inst.result with
      | none => owners
      | some machine => Function.update owners machine (some inst.result)

theorem written_some {home : Int → Option Nat} {inst : IrInst} {machine : Nat} {owners : Owners}
    (has : home inst.result = some machine) :
    written home (some inst) owners = Function.update owners machine (some inst.result) := by
  unfold written
  simp only [has]

theorem written_none {home : Int → Option Nat} {inst : IrInst} {owners : Owners}
    (memory : home inst.result = none) : written home (some inst) owners = owners := by
  unfold written
  simp only [memory]

def Enters (ir : IrFunction) (b : Nat) : Prop :=
  b = 0 ∨ csJitBlocksAreSelfContained ir = true ∧ csJitIsLoopHeader ir b = true

inductive Reaches (ir : IrFunction) (home : Int → Option Nat) : Nat × Nat → Owners → Prop
  | enter {b : Nat} (enters : Enters ir b) : Reaches ir home (b, 0) (fun _ => none)
  | step {place next : Nat × Nat} {owners : Owners} (earlier : Reaches ir home place owners)
      (flow : Flow ir place next) :
      Reaches ir home next (written home (ir.inst? place.1 place.2) owners)

/-- The instruction at `(b, i)` reads the register. -/
def ReadAt (ir : IrFunction) (b i : Nat) (register : Int) : Prop :=
  ∃ inst, ir.inst? b i = some inst ∧ register ∈ inst.csIrRegisterOperands ∧
    ir.isRegister register = true

def DefinedAt (ir : IrFunction) (b i : Nat) (register : Int) : Prop :=
  ∃ inst, ir.inst? b i = some inst ∧ inst.result = register

/-! ### What is asked of an allocation -/

/-- Registers that share a home never find each other's value in it; one that is
read in another block, or before its definition, has none; and no home is one of
the places spoken for. -/
structure Sound (ir : IrFunction) (pool : Pool) (home : Int → Option Nat) : Prop where
  unmerged : ∀ b i owners register machine, Reaches ir home (b, i) owners →
    ReadAt ir b i register → home register = some machine → owners machine = some register
  inMemory : ∀ b i c j register, ReadAt ir b i register → DefinedAt ir c j register →
    b ≠ c ∨ i ≤ j → home register = none
  apart : ∀ register machine place, home register = some machine → place < pool.size →
    pool.size - pool.reserved ≤ place → pool.number place ≠ machine

/-- A register that could have a home is read in its block only after its
definition: it is no comparison's result, and no field of another block names it. -/
def ReadsAfterDefinition (ir : IrFunction) : Prop :=
  ∀ b i j register inst, ReadAt ir b i register → ir.inst? b j = some inst →
    inst.result = register → inst.isComparison = false →
    (∀ c k other, ir.inst? c k = some other → register ∈ other.escapeOperands → c = b) → j < i

/-! ### Whole functions -/

variable {ir : IrFunction} {pool : Pool} {block : List IrInst} {home other : Int → Option Nat}

structure Placed (ir : IrFunction) (pool : Pool) (block : List IrInst)
    (home : Int → Option Nat) : Prop where
  live : ∀ (j : Nat) (inst : IrInst), block[j]? = some inst → 0 ≤ inst.result →
    ∀ machine, home inst.result = some machine → Allocatable ir block inst ∧
      ∃ place, place < pool.size - pool.reserved ∧ pool.number place = machine
  apart : ∀ (i j : Nat) (first second : IrInst), i < j → block[i]? = some first →
    block[j]? = some second → 0 ≤ first.result → 0 ≤ second.result →
    ∀ machine, home first.result = some machine → home second.result = some machine →
      ∀ last, lastUse ir block first.result = some last → last < j

theorem Placed.congr (placed : Placed ir pool block home)
    (same : ∀ inst ∈ block, 0 ≤ inst.result → other inst.result = home inst.result) :
    Placed ir pool block other := by
  constructor
  · intro j inst at_ nonneg machine has
    rw [same inst (List.mem_of_getElem? at_) nonneg] at has
    exact placed.live j inst at_ nonneg machine has
  · intro i j first second less firstAt secondAt firstNonneg secondNonneg machine firstHas has
    rw [same first (List.mem_of_getElem? firstAt) firstNonneg] at firstHas
    rw [same second (List.mem_of_getElem? secondAt) secondNonneg] at has
    exact placed.apart i j first second less firstAt secondAt firstNonneg secondNonneg machine
      firstHas has

/-- What holds when the first `count` blocks have been allocated. -/
structure Allocated (ir : IrFunction) (pool : Pool) (count : Nat) (home : Int → Option Nat) :
    Prop where
  placed : ∀ (b : Nat) (block : List IrInst), b < count → ir.blocks[b]? = some block →
    Placed ir pool block home
  homeless : ∀ register, (∀ (b : Nat) (block : List IrInst), b < count →
    ir.blocks[b]? = some block → 0 ≤ register → ¬Defines block register) → home register = none

theorem Allocated.step {count : Nat} (allocated : Allocated ir pool count home)
    (single : SingleAssignment ir) (distinct : pool.Distinct)
    (found : ir.blocks[count]? = some block) :
    Allocated ir pool (count + 1) (allocateBlock ir pool home block) := by
  -- A block defines nothing that another defines.
  have elsewhere : ∀ {b : Nat} {earlier : List IrInst} {register : Int}, b < count →
      ir.blocks[b]? = some earlier → 0 ≤ register → Defines earlier register →
      ¬Defines block register := by
    rintro b earlier register below earlierAt nonneg ⟨first, firstMember, firstResult⟩
      ⟨second, secondMember, secondResult⟩
    obtain ⟨i, firstAt⟩ := List.getElem?_of_mem firstMember
    obtain ⟨j, secondAt⟩ := List.getElem?_of_mem secondMember
    have position := single b i count j first second
      (inst?_eq_some.mpr ⟨earlier, earlierAt, firstAt⟩)
      (inst?_eq_some.mpr ⟨block, found, secondAt⟩) (firstResult ▸ nonneg)
      (firstResult.trans secondResult.symm)
    omega
  have fresh : Fresh block home := by
    intro inst member nonneg
    refine allocated.homeless _ fun b earlier below earlierAt _ defines => ?_
    exact elsewhere below earlierAt nonneg defines ⟨inst, member, rfl⟩
  obtain ⟨scan, assignment, scanned⟩ :=
    allocateBlock_scanned ir (single.inBlock found) distinct fresh
  rw [← assignment]
  have untouched : ∀ {register : Int}, (0 ≤ register → ¬Defines block register) →
      scan.assignment register = home register := by
    intro register never
    refine scanned.other register fun j inst _ at_ nonneg same => ?_
    exact never (same ▸ nonneg) ⟨inst, List.mem_of_getElem? at_, same⟩
  constructor
  · intro b current below currentAt
    by_cases here : b = count
    · subst here
      rw [found] at currentAt
      cases currentAt
      constructor
      · intro j inst at_ nonneg machine has
        obtain ⟨allocatable, place, inPool, number, _⟩ := scanned.live j inst
          (List.getElem?_eq_some_iff.mp at_).1 at_ nonneg machine has
        exact ⟨allocatable, place, inPool, number⟩
      · intro i j first second less firstAt secondAt
        exact scanned.apart i j first second less (List.getElem?_eq_some_iff.mp secondAt).1
          firstAt secondAt
    · refine (allocated.placed b current (by omega) currentAt).congr fun inst member nonneg => ?_
      exact untouched fun _ =>
        elsewhere (by omega) currentAt nonneg ⟨inst, member, rfl⟩
  · intro register never
    rw [untouched (never count block (Nat.lt_succ_self _) found)]
    exact allocated.homeless register fun b current below => never b current (by omega)

theorem csJitAllocateRegisters_allocated (single : SingleAssignment ir)
    (distinct : pool.Distinct) :
    Allocated ir pool ir.blocks.length (csJitAllocateRegisters ir pool) := by
  have prefixes : ∀ count ≤ ir.blocks.length,
      Allocated ir pool count ((ir.blocks.take count).foldl (allocateBlock ir pool)
        (fun _ => none)) := by
    intro count
    induction count with
    | zero =>
        exact fun _ => ⟨fun b _ below => absurd below (Nat.not_lt_zero b), fun _ _ => rfl⟩
    | succ count ih =>
        intro bound
        have found : ir.blocks[count]? = some ir.blocks[count] :=
          List.getElem?_eq_getElem (by omega)
        rw [List.take_add_one, found, Option.toList_some, List.foldl_append]
        exact (ih (by omega)).step single distinct found
  have whole := prefixes ir.blocks.length (Nat.le_refl _)
  rw [List.take_length] at whole
  exact whole

/-! ### Reads -/

section Reads

variable {register : Int} {machine b i : Nat}

theorem Allocated.defined (allocated : Allocated ir pool ir.blocks.length home)
    (has : home register = some machine) :
    ∃ (c : Nat) (block : List IrInst) (j : Nat) (inst : IrInst),
      ir.blocks[c]? = some block ∧ block[j]? = some inst ∧
      inst.result = register ∧ 0 ≤ register ∧ Allocatable ir block inst ∧
      ∃ place, place < pool.size - pool.reserved ∧ pool.number place = machine := by
  by_contra never
  have homeless := allocated.homeless register ?_
  · rw [homeless] at has
    cases has
  · rintro c block below blockAt nonneg ⟨inst, member, result⟩
    obtain ⟨j, instAt⟩ := List.getElem?_of_mem member
    have placed := (allocated.placed c block below blockAt).live j inst instAt
      (result ▸ nonneg) machine (result ▸ has)
    exact never ⟨c, block, j, inst, blockAt, instAt, result, nonneg, placed⟩

theorem Allocated.named (allocated : Allocated ir pool ir.blocks.length home)
    (single : SingleAssignment ir) (has : home register = some machine) {c j : Nat}
    {inst : IrInst} (found : ir.inst? c j = some inst) (result : inst.result = register) {k : Nat}
    {named : IrInst} (namedAt : ir.inst? b k = some named)
    (names : register ∈ named.escapeOperands) : b = c := by
  obtain ⟨_, block, _, definer, _, _, definerResult, nonneg, allocatable, _⟩ :=
    allocated.defined has
  have stays : escapes ir register = false := definerResult ▸ allocatable.2.1
  obtain ⟨last, used⟩ := Option.isSome_iff_exists.mp allocatable.2.2.2
  have inside : ir.isRegister register = true := definerResult ▸ isRegister_of_lastUse used
  have here := definedIn_of_not_escapes stays inside namedAt names
  rw [definedIn_iff single nonneg found result] at here
  exact (Option.some.inj here).symm

theorem Allocated.definedBefore (allocated : Allocated ir pool ir.blocks.length home)
    (single : SingleAssignment ir) (ordered : ReadsAfterDefinition ir)
    (has : home register = some machine) (read : ReadAt ir b i register) :
    ∃ (block : List IrInst) (j : Nat) (inst : IrInst),
      ir.blocks[b]? = some block ∧ block[j]? = some inst ∧
      inst.result = register ∧ 0 ≤ register ∧ j < i ∧
      ∃ last, lastUse ir block register = some last ∧ i ≤ last := by
  obtain ⟨c, block, j, inst, blockAt, instAt, result, nonneg, allocatable, _⟩ :=
    allocated.defined has
  have found := inst?_eq_some.mpr ⟨block, blockAt, instAt⟩
  obtain ⟨reader, readerAt, reads, inside⟩ := read
  obtain ⟨names, uses⟩ := IrInst.reads_named reads
  have here := allocated.named single has found result readerAt names
  subst here
  have later := ordered b i j register inst ⟨reader, readerAt, reads, inside⟩ found result
    allocatable.2.2.1 (fun c k named namedAt namedHere =>
      allocated.named single has found result namedAt namedHere)
  obtain ⟨same, sameAt, readerIn⟩ := inst?_eq_some.mp readerAt
  rw [blockAt] at sameAt
  cases sameAt
  exact ⟨block, j, inst, blockAt, instAt, result, nonneg, later,
    lastUse_of_used inside readerIn uses⟩

theorem Allocated.owned (allocated : Allocated ir pool ir.blocks.length home)
    {place : Nat × Nat} {owners : Owners} (reaches : Reaches ir home place owners) :
    ∀ block, ir.blocks[place.1]? = some block → ∀ (j : Nat) (inst : IrInst), j < place.2 →
      block[j]? = some inst → 0 ≤ inst.result → ∀ machine, home inst.result = some machine →
      ∀ last, lastUse ir block inst.result = some last → place.2 ≤ last →
        owners machine = some inst.result := by
  induction reaches with
  | enter enters => exact fun _ _ j _ below => absurd below (Nat.not_lt_zero j)
  | step earlier flow ih =>
      cases flow with
      | jump at_ op goes => exact fun _ _ j _ below => absurd below (Nat.not_lt_zero j)
      | branch at_ op goes => exact fun _ _ j _ below => absurd below (Nat.not_lt_zero j)
      | falls at_ => exact fun _ _ j _ below => absurd below (Nat.not_lt_zero j)
      | @next b i current at_ stays =>
          intro block blockAt j inst below instAt nonneg machine has last used later
          dsimp only at ih blockAt below later ⊢
          have placed := allocated.placed b block
            (List.getElem?_eq_some_iff.mp blockAt).1 blockAt
          have currentAt : block[i]? = some current := by
            obtain ⟨same, sameAt, found⟩ := inst?_eq_some.mp at_
            rw [blockAt] at sameAt
            cases sameAt
            exact found
          rw [at_]
          by_cases here : j = i
          · subst here
            rw [currentAt] at instAt
            cases instAt
            rw [written_some has]
            exact Function.update_self ..
          · have before := ih block blockAt j inst (by omega) instAt nonneg machine has last used
              (by omega)
            cases writes : home current.result with
            | none =>
                rw [written_none writes]
                exact before
            | some other =>
                rw [written_some writes]
                have different : machine ≠ other := by
                  intro same
                  obtain ⟨_, _, _, definer, _, _, result, currentNonneg, _⟩ :=
                    allocated.defined writes
                  have ended := placed.apart j i inst current (by omega) instAt currentAt nonneg
                    currentNonneg machine has (same ▸ writes) last used
                  omega
                exact (Function.update_of_ne different _ _).trans before

theorem Allocated.apart (allocated : Allocated ir pool ir.blocks.length home)
    (distinct : pool.Distinct) (has : home register = some machine) {place : Nat}
    (inPool : place < pool.size) (spoken : pool.size - pool.reserved ≤ place) :
    pool.number place ≠ machine := by
  intro same
  obtain ⟨_, _, _, _, _, _, _, _, _, held, heldInPool, number⟩ := allocated.defined has
  have equal : place = held := distinct (show place < pool.size from inPool)
    (show held < pool.size by omega) (same.trans number.symm)
  omega

theorem Allocated.sound (allocated : Allocated ir pool ir.blocks.length home)
    (single : SingleAssignment ir) (distinct : pool.Distinct)
    (ordered : ReadsAfterDefinition ir) : Sound ir pool home := by
  constructor
  · intro b i owners register machine reaches read has
    obtain ⟨block, j, inst, blockAt, instAt, result, nonneg, before, last, used, later⟩ :=
      allocated.definedBefore single ordered has read
    subst result
    exact allocated.owned reaches block blockAt j inst before instAt nonneg machine has last used
      later
  · intro b i c j register read defined apart
    by_contra has
    obtain ⟨machine, hasHome⟩ := Option.ne_none_iff_exists'.mp has
    obtain ⟨definer, definerAt, definerResult⟩ := defined
    obtain ⟨block, k, inst, blockAt, instAt, result, nonneg, before, _⟩ :=
      allocated.definedBefore single ordered hasHome read
    have position := single c j b k definer inst definerAt
      (inst?_eq_some.mpr ⟨block, blockAt, instAt⟩) (definerResult ▸ nonneg)
      (definerResult.trans result.symm)
    omega
  · exact fun _ _ _ has => allocated.apart distinct has

end Reads

end CScript.Jit.Allocation
