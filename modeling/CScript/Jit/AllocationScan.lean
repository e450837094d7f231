/-
What the scan of a block leaves.

Where every register has one defining instruction, two registers of a block share
a machine register only if the last use of the first comes before the second is
defined.  Blocks do not disturb one another.
-/

import CScript.Jit.Allocation

namespace CScript.Jit.Allocation

variable {ir : IrFunction} {pool : Pool} {block : List IrInst} {register : Int}

/-! ### Positions -/

def SingleAssignment (ir : IrFunction) : Prop :=
  ∀ (b i c j : Nat) (first second : IrInst), ir.inst? b i = some first → ir.inst? c j = some second →
    0 ≤ first.result → first.result = second.result → b = c ∧ i = j

theorem inst?_eq_some {b i : Nat} {inst : IrInst} :
    ir.inst? b i = some inst ↔ ∃ block, ir.blocks[b]? = some block ∧ block[i]? = some inst :=
  Option.bind_eq_some_iff

def Single (block : List IrInst) : Prop :=
  ∀ (i j : Nat) (first second : IrInst), block[i]? = some first → block[j]? = some second →
    0 ≤ first.result → first.result = second.result → i = j

theorem SingleAssignment.inBlock (single : SingleAssignment ir) {b : Nat}
    (found : ir.blocks[b]? = some block) : Single block := by
  intro i j first second firstAt secondAt nonneg same
  exact (single b i b j first second (inst?_eq_some.mpr ⟨block, found, firstAt⟩)
    (inst?_eq_some.mpr ⟨block, found, secondAt⟩) nonneg same).2

/-! ### Defining blocks -/

def Defines (block : List IrInst) (register : Int) : Prop :=
  ∃ inst ∈ block, inst.result = register

private theorem defineBlock_spec (index : Nat) (nonneg : 0 ≤ register) :
    ∀ (block : List IrInst) (defined : Int → Option Nat),
      (Defines block register → block.foldl (define index) defined register = some index) ∧
      (¬Defines block register →
        block.foldl (define index) defined register = defined register) := by
  intro block
  induction block with
  | nil => exact fun defined => ⟨fun defines => by simp [Defines] at defines, fun _ => rfl⟩
  | cons inst rest ih =>
      intro defined
      obtain ⟨inside, outside⟩ := ih (define index defined inst)
      rw [List.foldl_cons]
      by_cases later : Defines rest register
      · refine ⟨fun _ => inside later, fun never => absurd ?_ never⟩
        obtain ⟨other, member, same⟩ := later
        exact ⟨other, List.mem_cons_of_mem _ member, same⟩
      · rw [outside later]
        unfold define
        by_cases here : inst.result = register
        · rw [here, if_pos nonneg, Function.update_self]
          exact ⟨fun _ => rfl, fun never => absurd ⟨inst, List.mem_cons_self, here⟩ never⟩
        · have kept : (if 0 ≤ inst.result then Function.update defined inst.result (some index)
              else defined) register = defined register := by
            split
            · exact Function.update_of_ne (Ne.symm here) _ _
            · rfl
          refine ⟨fun defines => ?_, fun _ => kept⟩
          obtain ⟨other, member, same⟩ := defines
          cases List.mem_cons.mp member with
          | inl first => exact absurd (first ▸ same) here
          | inr tail => exact absurd ⟨other, tail, same⟩ later

private theorem defineBlocks_spec (nonneg : 0 ≤ register) :
    ∀ (blocks : List (List IrInst)) (start : Nat) (defined : Int → Option Nat),
      (∀ b, defineBlocks defined (blocks.zipIdx start) register = some b →
        defined register = some b ∨
          ∃ block, blocks[b - start]? = some block ∧ start ≤ b ∧ Defines block register) ∧
      ((∃ block ∈ blocks, Defines block register) ∨ defined register ≠ none →
        defineBlocks defined (blocks.zipIdx start) register ≠ none) := by
  intro blocks
  induction blocks with
  | nil =>
      exact fun start defined => ⟨fun b same => Or.inl same, fun some_ =>
        some_.elim (fun ⟨_, member, _⟩ => absurd member List.not_mem_nil) id⟩
  | cons block rest ih =>
      intro start defined
      obtain ⟨inside, outside⟩ := defineBlock_spec start nonneg block defined
      obtain ⟨sound, complete⟩ := ih (start + 1) (block.foldl (define start) defined)
      constructor
      · intro b same
        cases sound b same with
        | inl before =>
            by_cases defines : Defines block register
            · rw [inside defines] at before
              cases before
              exact Or.inr ⟨block, by simp, Nat.le_refl _, defines⟩
            · rw [outside defines] at before
              exact Or.inl before
        | inr later =>
            obtain ⟨other, found, above, defines⟩ := later
            refine Or.inr ⟨other, ?_, by omega, defines⟩
            have shift : b - start = b - (start + 1) + 1 := by omega
            rw [shift, List.getElem?_cons_succ]
            exact found
      · intro some_
        apply complete
        by_cases defines : Defines block register
        · exact Or.inr (by rw [inside defines]; exact Option.some_ne_none _)
        · rw [outside defines]
          cases some_ with
          | inr before => exact Or.inr before
          | inl exists_ =>
              obtain ⟨other, member, otherDefines⟩ := exists_
              cases List.mem_cons.mp member with
              | inl first => exact absurd (first ▸ otherDefines) defines
              | inr tail => exact Or.inl ⟨other, tail, otherDefines⟩

theorem definedIn_iff (single : SingleAssignment ir) (nonneg : 0 ≤ register) {b i : Nat}
    {inst : IrInst} (found : ir.inst? b i = some inst) (result : inst.result = register) :
    definedIn ir register = some b := by
  obtain ⟨block, blockAt, instAt⟩ := inst?_eq_some.mp found
  obtain ⟨sound, complete⟩ := defineBlocks_spec nonneg ir.blocks 0 (fun _ => none)
  have member := List.mem_of_getElem? blockAt
  have some_ := complete (Or.inl ⟨block, member, inst, List.mem_of_getElem? instAt, result⟩)
  obtain ⟨c, same⟩ := Option.ne_none_iff_exists'.mp some_
  obtain impossible | ⟨other, otherAt, _, second, secondMember, secondResult⟩ := sound c same
  · cases impossible
  · obtain ⟨j, secondAt⟩ := List.getElem?_of_mem secondMember
    rw [Nat.sub_zero] at otherAt
    have one := single b i c j inst second found
      (inst?_eq_some.mpr ⟨other, otherAt, secondAt⟩) (result ▸ nonneg)
      (result.trans secondResult.symm)
    rw [one.1]
    exact same

theorem definedIn_of_not_escapes (stays : escapes ir register = false)
    (inside : ir.isRegister register = true) {b i : Nat} {inst : IrInst}
    (found : ir.inst? b i = some inst) (named : register ∈ inst.escapeOperands) :
    definedIn ir register = some b := by
  obtain ⟨block, blockAt, instAt⟩ := inst?_eq_some.mp found
  by_contra other
  have marked : escapes ir register = true := by
    unfold escapes
    rw [inside, Bool.true_and, List.any_eq_true]
    refine ⟨(block, b), List.mem_zipIdx_iff_getElem?.mpr blockAt, ?_⟩
    rw [List.any_eq_true]
    refine ⟨inst, List.mem_of_getElem? instAt, ?_⟩
    rw [Bool.and_eq_true, decide_eq_true_eq, decide_eq_true_eq]
    exact ⟨named, other⟩
  rw [stays] at marked
  cases marked

theorem named_of_escapes (marked : escapes ir register = true) :
    ∃ b i inst, ir.inst? b i = some inst ∧ register ∈ inst.escapeOperands ∧
      definedIn ir register ≠ some b := by
  unfold escapes at marked
  rw [Bool.and_eq_true, List.any_eq_true] at marked
  obtain ⟨_, ⟨block, b⟩, member, some_⟩ := marked
  rw [List.any_eq_true] at some_
  obtain ⟨inst, instMember, holds⟩ := some_
  rw [Bool.and_eq_true, decide_eq_true_eq, decide_eq_true_eq] at holds
  obtain ⟨i, instAt⟩ := List.getElem?_of_mem instMember
  exact ⟨b, i, inst, inst?_eq_some.mpr ⟨block, List.mem_zipIdx_iff_getElem?.mp member, instAt⟩,
    holds⟩

/-! ### Last uses -/

private theorem last_found {p : Nat → Bool} {count index : Nat} (below : index < count)
    (holds : p index = true) :
    ∃ last, (List.range count).reverse.find? p = some last ∧ index ≤ last := by
  induction count with
  | zero => omega
  | succ count ih =>
      rw [List.range_succ, List.reverse_append, List.reverse_singleton, List.singleton_append,
        List.find?_cons]
      cases top : p count with
      | true => exact ⟨count, rfl, by omega⟩
      | false =>
          have lower : index < count := by
            have other : index ≠ count := by
              intro same
              rw [same, top] at holds
              cases holds
            omega
          exact ih lower

theorem lastUse_of_used (inside : ir.isRegister register = true) {index : Nat} {inst : IrInst}
    (found : block[index]? = some inst) (used : register ∈ inst.useOperands) :
    ∃ last, lastUse ir block register = some last ∧ index ≤ last := by
  unfold lastUse
  rw [if_pos inside]
  have bound : index < block.length := (List.getElem?_eq_some_iff.mp found).1
  refine last_found bound ?_
  rw [found]
  exact decide_eq_true used

theorem isRegister_of_lastUse {last : Nat} (used : lastUse ir block register = some last) :
    ir.isRegister register = true := by
  unfold lastUse at used
  split at used
  · assumption
  · cases used

/-! ### One step of the scan -/

theorem release_eq_some {index place : Nat} {holder : Nat → Option Int} :
    release ir block index holder place = some register ↔
      holder place = some register ∧
        ∀ last, lastUse ir block register = some last → index ≤ last := by
  unfold release
  rw [Option.filter_eq_some_iff]
  refine and_congr_right fun _ => ?_
  cases lastUse ir block register with
  | none => simp
  | some last => simp

theorem freePlace_eq_some {place : Nat} {holder : Nat → Option Int}
    (found : freePlace pool holder = some place) :
    place < pool.size - pool.reserved ∧ holder place = none := by
  unfold freePlace at found
  exact ⟨List.mem_range.mp (List.mem_of_find?_eq_some found),
    Option.isNone_iff_eq_none.mp
      (List.find?_some (p := fun place => (holder place).isNone) found)⟩

def Allocatable (ir : IrFunction) (block : List IrInst) (inst : IrInst) : Prop :=
  0 ≤ inst.result ∧ escapes ir inst.result = false ∧ inst.isComparison = false ∧
    (lastUse ir block inst.result).isSome

theorem allocateInst_cases (ir : IrFunction) (pool : Pool) (block : List IrInst) (index : Nat)
    (inst : IrInst) (scan : Scan) :
    ((¬Allocatable ir block inst ∨
        freePlace pool (release ir block index scan.holder) = none) ∧
      allocateInst ir pool block index inst scan =
        { scan with holder := release ir block index scan.holder }) ∨
    ∃ place, Allocatable ir block inst ∧
      freePlace pool (release ir block index scan.holder) = some place ∧
      allocateInst ir pool block index inst scan =
        { holder := Function.update (release ir block index scan.holder) place
            (some inst.result)
          assignment :=
            Function.update scan.assignment inst.result (some (pool.number place)) } := by
  unfold allocateInst
  simp only
  have guard : (inst.result < 0 || escapes ir inst.result || inst.isComparison ||
      (lastUse ir block inst.result).isNone) = true ↔ ¬Allocatable ir block inst := by
    unfold Allocatable
    cases escapes ir inst.result <;> cases inst.isComparison <;>
      cases lastUse ir block inst.result <;> simp
  by_cases refused : Allocatable ir block inst
  · rw [if_neg (fun holds => guard.mp holds refused)]
    cases free : freePlace pool (release ir block index scan.holder) with
    | none => exact Or.inl ⟨Or.inr rfl, rfl⟩
    | some place => exact Or.inr ⟨place, refused, rfl, rfl⟩
  · rw [if_pos (guard.mpr refused)]
    exact Or.inl ⟨Or.inl refused, rfl⟩

/-! ### The scan of a block -/

/-- What holds when the instructions before `index` have been scanned. -/
structure Scanned (ir : IrFunction) (pool : Pool) (block : List IrInst)
    (before : Int → Option Nat) (index : Nat) (scan : Scan) : Prop where
  other : ∀ register, (∀ (j : Nat) (inst : IrInst), j < index → block[j]? = some inst →
    0 ≤ inst.result → inst.result ≠ register) → scan.assignment register = before register
  live : ∀ (j : Nat) (inst : IrInst), j < index → block[j]? = some inst → 0 ≤ inst.result →
    ∀ home, scan.assignment inst.result = some home → Allocatable ir block inst ∧
      ∃ place, place < pool.size - pool.reserved ∧ pool.number place = home ∧
        ∀ last, lastUse ir block inst.result = some last → index ≤ last + 1 →
          scan.holder place = some inst.result
  apart : ∀ (i j : Nat) (first second : IrInst), i < j → j < index → block[i]? = some first →
    block[j]? = some second → 0 ≤ first.result → 0 ≤ second.result →
    ∀ home, scan.assignment first.result = some home →
      scan.assignment second.result = some home →
      ∀ last, lastUse ir block first.result = some last → last < j

def Pool.Distinct (pool : Pool) : Prop :=
  Set.InjOn pool.number {place | place < pool.size}

def Fresh (block : List IrInst) (before : Int → Option Nat) : Prop :=
  ∀ inst ∈ block, 0 ≤ inst.result → before inst.result = none

variable {before : Int → Option Nat} {index : Nat} {inst : IrInst} {scan : Scan}

private theorem result_before (single : Single block) (found : block[index]? = some inst)
    (nonneg : 0 ≤ inst.result) {j : Nat} {earlier : IrInst} (below : j < index)
    (earlierAt : block[j]? = some earlier) : earlier.result ≠ inst.result := by
  intro same
  have position := single j index earlier inst earlierAt found (same ▸ nonneg) same
  omega

theorem Scanned.step (scanned : Scanned ir pool block before index scan) (single : Single block)
    (distinct : pool.Distinct) (fresh : Fresh block before) (found : block[index]? = some inst) :
    Scanned ir pool block before (index + 1) (allocateInst ir pool block index inst scan) := by
  have homeless : 0 ≤ inst.result → scan.assignment inst.result = none := by
    intro nonneg
    rw [scanned.other inst.result (fun j earlier below earlierAt _ =>
      result_before single found nonneg below earlierAt)]
    exact fresh inst (List.mem_of_getElem? found) nonneg
  have kept : ∀ {place last : Nat} {register : Int}, scan.holder place = some register →
      lastUse ir block register = some last → index ≤ last →
      release ir block index scan.holder place = some register := by
    intro place last register holds used later
    refine release_eq_some.mpr ⟨holds, fun other otherUsed => ?_⟩
    rw [used] at otherUsed
    cases otherUsed
    exact later
  obtain ⟨_, same⟩ | ⟨place, allocatable, free, same⟩ :=
    allocateInst_cases ir pool block index inst scan
  · rw [same]
    constructor
    · exact fun register never => scanned.other register fun j earlier below =>
        never j earlier (by omega)
    · intro j earlier below earlierAt nonneg home has
      by_cases here : j = index
      · subst here
        rw [found] at earlierAt
        cases earlierAt
        rw [homeless nonneg] at has
        cases has
      · obtain ⟨candidate, place, inPool, number, holds⟩ :=
          scanned.live j earlier (by omega) earlierAt nonneg home has
        exact ⟨candidate, place, inPool, number, fun last used later =>
          kept (holds last used (by omega)) used (by omega)⟩
    · intro i j first second less below firstAt secondAt firstNonneg nonneg home firstHas has
      by_cases here : j = index
      · subst here
        rw [found] at secondAt
        cases secondAt
        rw [homeless nonneg] at has
        cases has
      · exact scanned.apart i j first second less (by omega) firstAt secondAt firstNonneg nonneg
          home firstHas has
  · rw [same]
    obtain ⟨inPool, empty⟩ := freePlace_eq_some free
    have nonneg := allocatable.1
    have unmoved : ∀ {j : Nat} {earlier : IrInst}, j < index → block[j]? = some earlier →
        Function.update scan.assignment inst.result (some (pool.number place)) earlier.result =
          scan.assignment earlier.result := fun below earlierAt =>
      Function.update_of_ne (result_before single found nonneg below earlierAt) _ _
    constructor
    · intro register never
      dsimp only
      rw [Function.update_of_ne (never index inst (Nat.lt_succ_self _) found nonneg).symm]
      exact scanned.other register fun j earlier below => never j earlier (by omega)
    · intro j earlier below earlierAt earlierNonneg home has
      dsimp only at has ⊢
      by_cases here : j = index
      · subst here
        rw [found] at earlierAt
        cases earlierAt
        rw [Function.update_self] at has
        cases has
        exact ⟨allocatable, place, inPool, rfl, fun _ _ _ => Function.update_self ..⟩
      · have lower : j < index := by omega
        rw [unmoved lower earlierAt] at has
        obtain ⟨candidate, held, heldInPool, number, holds⟩ :=
          scanned.live j earlier lower earlierAt earlierNonneg home has
        refine ⟨candidate, held, heldInPool, number, fun last used later => ?_⟩
        have still := kept (holds last used (by omega)) used (by omega)
        have different : held ≠ place := by
          intro equal
          rw [equal, empty] at still
          cases still
        exact (Function.update_of_ne different _ _).trans still
    · intro i j first second less below firstAt secondAt firstNonneg secondNonneg home firstHas has
        last used
      dsimp only at firstHas has
      by_cases here : j = index
      · subst here
        rw [found] at secondAt
        cases secondAt
        rw [Function.update_self] at has
        cases has
        rw [unmoved less firstAt] at firstHas
        obtain ⟨_, held, heldInPool, number, holds⟩ :=
          scanned.live i first less firstAt firstNonneg _ firstHas
        by_contra late
        have still := kept (holds last used (by omega)) used (by omega)
        have equal : held = place := distinct (show held < pool.size by omega)
          (show place < pool.size by omega) number
        rw [equal, empty] at still
        cases still
      · have lower : j < index := by omega
        rw [unmoved (by omega) firstAt] at firstHas
        rw [unmoved lower secondAt] at has
        exact scanned.apart i j first second less lower firstAt secondAt firstNonneg secondNonneg
          home firstHas has last used

theorem Scanned.run (single : Single block) (distinct : pool.Distinct)
    (fresh : Fresh block before) (done rest : List IrInst) (split : block = done ++ rest)
    (scanned : Scanned ir pool block before done.length scan) :
    Scanned ir pool block before block.length
      (scanFrom ir pool block done.length rest scan) := by
  induction rest generalizing done scan with
  | nil =>
      rw [split, List.append_nil] at *
      exact scanned
  | cons inst rest ih =>
      have found : block[done.length]? = some inst := by
        rw [split, List.getElem?_append_right (Nat.le_refl _), Nat.sub_self]
        rfl
      have next := scanned.step single distinct fresh found
      have shifted : block = (done ++ [inst]) ++ rest := by
        rw [split, List.append_assoc]
        rfl
      have counted : (done ++ [inst]).length = done.length + 1 := List.length_append
      rw [← counted] at next
      have finished := ih (done ++ [inst]) shifted next
      rw [counted] at finished
      exact finished

theorem allocateBlock_scanned (ir : IrFunction) (single : Single block) (distinct : pool.Distinct)
    (fresh : Fresh block before) : ∃ scan, scan.assignment = allocateBlock ir pool before block ∧
      Scanned ir pool block before block.length scan := by
  refine ⟨_, rfl, Scanned.run single distinct fresh [] block rfl ?_⟩
  exact ⟨fun _ _ => rfl, fun j _ below => absurd below (Nat.not_lt_zero j),
    fun _ j _ _ _ below => absurd below (Nat.not_lt_zero j)⟩

end CScript.Jit.Allocation
