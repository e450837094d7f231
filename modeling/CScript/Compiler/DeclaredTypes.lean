/-
What a function carries of the types it was declared with.

The ids of the composite types start at 32 and a table holds 256 of them, while a
function keeps the types of its parameters, and of what it answers, in a byte each.
-/

import CScript.Compiler.Bytecode
import CScript.Compiler.TypeUnion
import CScript.Jit.Tiering

namespace CScript.Compile

open Typing (TypePools Known idOf noTypes csTypeNewComposite csTypeTakeSlots csTypeUnionOf)

/-! ### The source -/

abbrev Name := List UInt8

structure AstParam (Expression Pattern : Type) where
  name : Name
  type : TypeId
  hasAnnotation : Bool
  pattern : Option Pattern
  defaultValue : Option Expression
  optional : Bool

structure AstFunction (Expression Statement Pattern : Type) where
  name : Option Name
  params : List (AstParam Expression Pattern)
  body : List Statement
  returnType : TypeId
  hasReturnAnnotation : Bool
  isAsync : Bool
  hasRest : Bool
  isDeclaration : Bool
  isMethod : Bool
  isGenerator : Bool
  isArrow : Bool

def isArrayOf (element : Typing.TypeId) (composite : Typing.CompositeType) : Bool :=
  decide (composite = .array element)

def csTypeArrayOf (pools : TypePools) (element : Typing.TypeId) : Typing.TypeId × TypePools :=
  if element = .dynamic then (.array, pools)
  else
    match pools.composites.findIdx? (isArrayOf element) with
    | some index => (.composite index, pools)
    | none =>
        let (id, pools) := csTypeNewComposite pools (.array element)
        (id.getD .array, pools)

/-- The loop of `parseTypeSuffix` over so many pairs of brackets. -/
def arraySuffixes (pools : TypePools) (type : Typing.TypeId) : Nat → Typing.TypeId × TypePools
  | 0 => (type, pools)
  | count + 1 =>
      let (type, pools) := csTypeArrayOf pools type
      arraySuffixes pools type count

section

variable {Expression Statement Pattern : Type}

def AstParam.declared (param : AstParam Expression Pattern) : TypeId :=
  if param.hasAnnotation then param.type else TYPE_DYNAMIC

def AstFunction.answersAnnotated (node : AstFunction Expression Statement Pattern) : Bool :=
  node.hasReturnAnnotation && !node.isAsync && !node.isGenerator

/-- The types `compileFunctionAs` gives the function it compiles; without parameters it
leaves out the run of them. -/
def carryTypes (node : AstFunction Expression Statement Pattern) (function : ObjFunction) :
    ObjFunction :=
  { function with
    paramTypes := node.params.map fun param => UInt8.ofNat param.declared
    returnType :=
      if node.answersAnnotated then UInt8.ofNat node.returnType else function.returnType }

/-! ### The byte of a type -/

def carried (node : AstFunction Expression Statement Pattern) : List TypeId :=
  ((node.params.filter fun param => param.hasAnnotation).map fun param => param.type) ++
    (if node.answersAnnotated then [node.returnType] else [])

theorem mem_carried_param {node : AstFunction Expression Statement Pattern}
    {param : AstParam Expression Pattern} (there : param ∈ node.params)
    (annotated : param.hasAnnotation = true) : param.type ∈ carried node :=
  List.mem_append_left _
    (List.mem_map.mpr ⟨param, List.mem_filter.mpr ⟨there, annotated⟩, rfl⟩)

theorem mem_carried_return {node : AstFunction Expression Statement Pattern}
    (annotated : node.answersAnnotated = true) : node.returnType ∈ carried node := by
  apply List.mem_append_right
  rw [if_pos annotated]
  exact List.mem_singleton_self _

def Annotated (pools : TypePools) (node : AstFunction Expression Statement Pattern) : Prop :=
  ∀ type ∈ carried node, ∃ id, Known pools.toTypeTable id ∧ type = idOf id

end

def kindOf (byte : UInt8) : Jit.TypeKind :=
  match byte.toNat with
  | 0 => .dynamic
  | 1 => .unknown
  | 2 => .number
  | 3 => .bigint
  | 4 => .string
  | 5 => .boolean
  | 6 => .null
  | 7 => .undefined
  | 8 => .function
  | 9 => .array
  | 10 => .object
  | 11 => .never
  | 12 => .error
  | other => .composite (other - 32)

theorem kindOf_number {byte : UInt8} : kindOf byte = .number ↔ byte = UInt8.ofNat TYPE_NUMBER := by
  rw [← UInt8.toNat_inj]
  unfold kindOf
  split <;> simp_all [TYPE_NUMBER]

structure Loaded (function : ObjFunction) (called : Jit.ObjFunction) : Prop where
  paramTypes : called.paramTypes =
    if function.paramTypes = [] then none else some (function.paramTypes.map kindOf)
  returnType : called.returnType = kindOf function.returnType

/-! ### Tables -/

/-- A table as the file's declarations make it: what is added goes through
`csTypeNewComposite`, and what is there may be filled in. -/
inductive Reached : TypePools → Prop
  | start : Reached noTypes
  | made {pools : TypePools} (reached : Reached pools) (composite : Typing.CompositeType) :
      Reached (csTypeNewComposite pools composite).2
  | changed {old new : TypePools} (reached : Reached old)
      (same : new.composites.length = old.composites.length) : Reached new

theorem csTypeNewComposite_length (pools : TypePools) (composite : Typing.CompositeType)
    (fits : pools.composites.length ≤ 256) :
    (csTypeNewComposite pools composite).2.composites.length ≤ 256 := by
  unfold csTypeNewComposite
  by_cases room : 256 ≤ pools.composites.length
  · rw [if_pos room]
    exact fits
  · rw [if_neg room, List.length_append]
    exact Nat.lt_of_not_le room

theorem Reached.length {pools : TypePools} (reached : Reached pools) :
    pools.composites.length ≤ 256 := by
  induction reached with
  | start => exact Nat.zero_le 256
  | made reached composite ih => exact csTypeNewComposite_length _ composite ih
  | changed reached same ih =>
      rw [same]
      exact ih

theorem csTypeArrayOf_reached {pools : TypePools} (reached : Reached pools)
    (element : Typing.TypeId) : Reached (csTypeArrayOf pools element).2 := by
  unfold csTypeArrayOf
  by_cases nothing : element = .dynamic
  · rw [if_pos nothing]
    exact reached
  · rw [if_neg nothing]
    cases pools.composites.findIdx? (isArrayOf element) with
    | some index => exact reached
    | none => exact reached.made (.array element)

theorem arraySuffixes_reached {pools : TypePools} (reached : Reached pools)
    (type : Typing.TypeId) (count : Nat) : Reached (arraySuffixes pools type count).2 := by
  induction count generalizing pools type with
  | zero => exact reached
  | succ count ih => exact ih (csTypeArrayOf_reached reached type) _

theorem idOf_lt {pools : TypePools} (reached : Reached pools) {id : Typing.TypeId}
    (known : Known pools.toTypeTable id) : idOf id < 288 := by
  have length := reached.length
  cases id with
  | composite index =>
      have inside := known index rfl
      change 32 + index < 288
      omega
  | _ => decide

/-! ### What is left of an annotation -/

section

variable {Expression Statement Pattern : Type}

/-- The function says `number` where its declaration does, and nowhere else. -/
structure Survives (node : AstFunction Expression Statement Pattern) (function : ObjFunction) :
    Prop where
  param : ∀ i : Nat, function.paramTypes[i]? = some (UInt8.ofNat TYPE_NUMBER) →
    ∃ param, node.params[i]? = some param ∧ param.hasAnnotation = true ∧ param.type = TYPE_NUMBER
  result : function.returnType = UInt8.ofNat TYPE_NUMBER →
    node.answersAnnotated = true ∧ node.returnType = TYPE_NUMBER
  composite : ∀ type ∈ carried node, 32 ≤ type →
    ∀ primitive : Typing.TypeId, Typing.csTypeIsComposite primitive = false →
      UInt8.ofNat type ≠ UInt8.ofNat (idOf primitive)
  holds : ∀ {called : Jit.ObjFunction}, Loaded function called →
    ∀ {args : List Jit.FrameSlot} {message : List UInt8},
      Jit.parameterTypesHold called args = some message →
      ∃ (i : Nat) (param : AstParam Expression Pattern) (argument : Jit.FrameSlot),
        node.params[i]? = some param ∧ param.hasAnnotation = true ∧ param.type = TYPE_NUMBER ∧
          args[i]? = some argument ∧ argument.isNumber = false

theorem carryTypes_param {node : AstFunction Expression Statement Pattern}
    {function : ObjFunction} {i : Nat} {byte : UInt8}
    (there : (carryTypes node function).paramTypes[i]? = some byte) :
    ∃ param, node.params[i]? = some param ∧ byte = UInt8.ofNat param.declared := by
  unfold carryTypes at there
  rw [List.getElem?_map] at there
  obtain ⟨param, found, rfl⟩ := Option.map_eq_some_iff.mp there
  exact ⟨param, found, rfl⟩

theorem ofNat_eq_iff {left right : Nat} :
    UInt8.ofNat left = UInt8.ofNat right ↔ left % 256 = right % 256 := by
  rw [← UInt8.toNat_inj, UInt8.toNat_ofNat', UInt8.toNat_ofNat']

theorem narrow_number {pools : TypePools} (reached : Reached pools)
    {node : AstFunction Expression Statement Pattern} (annotated : Annotated pools node)
    {type : TypeId} (there : type ∈ carried node)
    (clear : ∀ type ∈ carried node, type < 256 ∨ 268 < type)
    (same : UInt8.ofNat type = UInt8.ofNat TYPE_NUMBER) : type = TYPE_NUMBER := by
  obtain ⟨id, known, rfl⟩ := annotated type there
  have bound := idOf_lt reached known
  have apart : idOf id < 256 ∨ 268 < idOf id := clear _ there
  have wraps : idOf id % 256 = 2 := ofNat_eq_iff.mp same
  change idOf id = 2
  omega

theorem idOf_primitive {id : Typing.TypeId} (primitive : Typing.csTypeIsComposite id = false) :
    idOf id ≤ 12 := by
  cases id with
  | composite index => cases primitive
  | _ => decide

theorem firstMistyped_spec {types : List Jit.TypeKind} {args : List Jit.FrameSlot}
    {from_ at_ : Nat} {argument : Jit.FrameSlot}
    (found : Jit.firstMistyped from_ types args = some (at_, argument)) :
    ∃ i : Nat, types[i]? = some .number ∧ args[i]? = some argument ∧
      argument.isNumber = false := by
  induction types generalizing args from_ with
  | nil => cases found
  | cons type types ih =>
      cases args with
      | nil => cases found
      | cons first args =>
          unfold Jit.firstMistyped at found
          split at found
          · next mistyped =>
              cases found
              exact ⟨0, by rw [mistyped.1]; rfl, rfl, mistyped.2⟩
          · obtain ⟨i, isNumber, there, other⟩ := ih found
            exact ⟨i + 1, isNumber, there, other⟩

theorem parameterTypesHold_spec {called : Jit.ObjFunction} {args : List Jit.FrameSlot}
    {message : List UInt8} (fails : Jit.parameterTypesHold called args = some message) :
    ∃ types, called.paramTypes = some types ∧ ∃ (i : Nat) (argument : Jit.FrameSlot),
      types[i]? = some .number ∧ args[i]? = some argument ∧ argument.isNumber = false := by
  unfold Jit.parameterTypesHold at fails
  split at fails
  · cases fails
  · next types same =>
      split at fails
      · cases fails
      · next at_ argument found =>
          obtain ⟨i, isNumber, there, other⟩ := firstMistyped_spec found
          rw [List.getElem?_take] at isNumber
          split at isNumber
          · exact ⟨types, same, i, argument, isNumber, there, other⟩
          · cases isNumber

theorem carryTypes_survives {pools : TypePools} (reached : Reached pools)
    {node : AstFunction Expression Statement Pattern} (annotated : Annotated pools node)
    (clear : ∀ type ∈ carried node, type < 256 ∨ 268 < type) :
    Survives node (carryTypes node .new) := by
  have declared {i : Nat}
      (there : (carryTypes node .new).paramTypes[i]? = some (UInt8.ofNat TYPE_NUMBER)) :
      ∃ param, node.params[i]? = some param ∧ param.hasAnnotation = true ∧
        param.type = TYPE_NUMBER := by
    obtain ⟨param, found, same⟩ := carryTypes_param there
    unfold AstParam.declared at same
    by_cases given : param.hasAnnotation = true
    · rw [if_pos given] at same
      have inside := mem_carried_param (List.mem_of_getElem? found) given
      exact ⟨param, found, given, narrow_number reached annotated inside clear same.symm⟩
    · rw [if_neg given] at same
      exact absurd same (by decide)
  refine ⟨fun i => declared, fun same => ?_, fun type there big primitive isPrimitive same => ?_,
    fun loaded args message fails => ?_⟩
  · unfold carryTypes at same
    by_cases given : node.answersAnnotated = true
    · rw [if_pos given] at same
      exact ⟨given, narrow_number reached annotated (mem_carried_return given) clear same⟩
    · rw [if_neg given] at same
      have apart : UInt8.ofNat TYPE_DYNAMIC ≠ UInt8.ofNat TYPE_NUMBER := by decide
      exact absurd same apart
  · obtain ⟨id, known, rfl⟩ := annotated type there
    have bound := idOf_lt reached known
    have apart : idOf id < 256 ∨ 268 < idOf id := clear _ there
    have low := idOf_primitive isPrimitive
    have wraps : idOf id % 256 = idOf primitive % 256 := ofNat_eq_iff.mp same
    have above : 32 ≤ idOf id := big
    omega
  · obtain ⟨types, same, i, argument, isNumber, there, other⟩ := parameterTypesHold_spec fails
    rw [loaded.paramTypes] at same
    split at same
    · cases same
    · cases same
      rw [List.getElem?_map] at isNumber
      obtain ⟨byte, found, kind⟩ := Option.map_eq_some_iff.mp isNumber
      rw [kindOf_number.mp kind] at found
      obtain ⟨param, given, hasAnnotation, type⟩ := declared found
      exact ⟨i, param, argument, given, hasAnnotation, type, there, other⟩

theorem exists_primitive {id : Nat} (low : id ≤ 12) :
    ∃ primitive : Typing.TypeId, Typing.csTypeIsComposite primitive = false ∧
      idOf primitive = id := by
  match id, low with
  | 0, _ => exact ⟨.dynamic, rfl, rfl⟩
  | 1, _ => exact ⟨.unknown, rfl, rfl⟩
  | 2, _ => exact ⟨.number, rfl, rfl⟩
  | 3, _ => exact ⟨.bigint, rfl, rfl⟩
  | 4, _ => exact ⟨.string, rfl, rfl⟩
  | 5, _ => exact ⟨.boolean, rfl, rfl⟩
  | 6, _ => exact ⟨.null, rfl, rfl⟩
  | 7, _ => exact ⟨.undefined, rfl, rfl⟩
  | 8, _ => exact ⟨.function, rfl, rfl⟩
  | 9, _ => exact ⟨.array, rfl, rfl⟩
  | 10, _ => exact ⟨.object, rfl, rfl⟩
  | 11, _ => exact ⟨.never, rfl, rfl⟩
  | 12, _ => exact ⟨.error, rfl, rfl⟩
  | _ + 13, low => omega

theorem Survives.clear {node : AstFunction Expression Statement Pattern}
    {function : ObjFunction} (survives : Survives node function) :
    ∀ type ∈ carried node, type < 256 ∨ 268 < type := by
  have clear (id : Nat) (there : id ∈ carried node) : id < 256 ∨ 268 < id := by
    by_contra between
    have small : id - 256 ≤ 12 := by omega
    obtain ⟨primitive, isPrimitive, same⟩ := exists_primitive small
    have big : 32 ≤ id := by omega
    apply survives.composite id there big primitive isPrimitive
    rw [ofNat_eq_iff, same]
    omega
  exact clear

/-- The types a function was declared with survive into it exactly where no annotation that
it carries has one of the ids 256 to 268, which are those of the composite types 224 to 236. -/
theorem compileFunctionAs_types_iff {pools : TypePools} (reached : Reached pools)
    (node : AstFunction Expression Statement Pattern) (annotated : Annotated pools node) :
    Survives node (carryTypes node .new) ↔ ∀ type ∈ carried node, type < 256 ∨ 268 < type :=
  ⟨Survives.clear, carryTypes_survives reached annotated⟩

end

/-! ### Enough brackets -/

structure NoArrayOf (pools : TypePools) (type : Typing.TypeId) : Prop where
  given : type ≠ .dynamic
  known : Known pools.toTypeTable type
  fresh : ∀ inner, Typing.CompositeType.array inner ∈ pools.composites →
    Known pools.toTypeTable inner ∧ inner ≠ type

theorem csTypeArrayOf_new {pools : TypePools} {type : Typing.TypeId}
    (none : NoArrayOf pools type) (room : pools.composites.length < 256) :
    csTypeArrayOf pools type = (.composite pools.composites.length,
      { pools with composites := pools.composites ++ [.array type] }) := by
  have absent : pools.composites.findIdx? (isArrayOf type) = Option.none := by
    rw [List.findIdx?_eq_none_iff]
    intro composite there
    apply decide_eq_false
    rintro rfl
    exact (none.fresh type there).2 rfl
  unfold csTypeArrayOf csTypeNewComposite
  rw [if_neg none.given, absent, if_neg (Nat.not_le_of_lt room)]
  rfl

theorem NoArrayOf.next {pools : TypePools} {type : Typing.TypeId} (none : NoArrayOf pools type) :
    NoArrayOf { pools with composites := pools.composites ++ [.array type] }
      (.composite pools.composites.length) := by
  have more {inner : Typing.TypeId} (known : Known pools.toTypeTable inner) :
      Known { composites := pools.composites ++ [.array type] } inner := by
    intro index same
    rw [List.length_append]
    exact Nat.lt_succ_of_lt (known index same)
  have apart {inner : Typing.TypeId} (known : Known pools.toTypeTable inner) :
      inner ≠ .composite pools.composites.length :=
    fun same => absurd (known _ same) (Nat.lt_irrefl _)
  refine ⟨nofun, ?_, fun inner there => ?_⟩
  · rintro index ⟨⟩
    rw [List.length_append]
    exact Nat.lt_succ_self _
  · rcases List.mem_append.mp there with old | new
    · have known := (none.fresh inner old).1
      exact ⟨more known, apart known⟩
    · cases List.mem_singleton.mp new
      exact ⟨more none.known, apart none.known⟩

theorem arraySuffixes_next {pools : TypePools} {type : Typing.TypeId}
    (none : NoArrayOf pools type) (count : Nat)
    (room : pools.composites.length + count < 256) :
    (arraySuffixes pools type (count + 1)).1 = .composite (pools.composites.length + count) ∧
      (arraySuffixes pools type (count + 1)).2.composites.length =
        pools.composites.length + count + 1 := by
  have length : (pools.composites ++ [Typing.CompositeType.array type]).length =
      pools.composites.length + 1 := List.length_append
  induction count generalizing pools type with
  | zero =>
      unfold arraySuffixes
      rw [csTypeArrayOf_new none room]
      exact ⟨rfl, length⟩
  | succ count ih =>
      unfold arraySuffixes
      rw [csTypeArrayOf_new none (by omega)]
      have rest := ih none.next (by rw [length]; omega) List.length_append
      rw [length, Nat.add_right_comm, Nat.add_assoc] at rest
      exact rest

/-- `function f(x: type) {}` -/
def oneParameter (type : TypeId) : AstFunction Empty Empty Empty :=
  { name := some [102]
    params := [{ name := [120], type := type, hasAnnotation := true, pattern := none,
                 defaultValue := none, optional := false }]
    body := []
    returnType := TYPE_DYNAMIC
    hasReturnAnnotation := false
    isAsync := false
    hasRest := false
    isDeclaration := true
    isMethod := false
    isGenerator := false
    isArrow := false }

theorem oneParameter_narrow :
    ¬Survives (oneParameter 258) (carryTypes (oneParameter 258) .new) := by
  intro survives
  obtain ⟨param, there, _, type⟩ := survives.param 0 rfl
  cases there
  cases type

/-- Where the table has no array of numbers yet, some number of brackets after `number` makes
the annotation of a parameter the composite type 226, which does not survive. -/
theorem compileFunctionAs_brackets :
    (∀ pools : TypePools, Reached pools → NoArrayOf pools .number →
      pools.composites.length ≤ 226 →
      ∃ count, Reached (arraySuffixes pools .number count).2 ∧
        Annotated (arraySuffixes pools .number count).2
          (oneParameter (idOf (arraySuffixes pools .number count).1)) ∧
        ¬Survives (oneParameter (idOf (arraySuffixes pools .number count).1))
          (carryTypes (oneParameter (idOf (arraySuffixes pools .number count).1)) .new)) ∧
      Reached noTypes ∧ NoArrayOf noTypes .number := by
  refine ⟨fun pools reached none room => ?_, .start, nofun, nofun, nofun⟩
  obtain ⟨id, length⟩ := arraySuffixes_next none (226 - pools.composites.length) (by omega)
  have last : pools.composites.length + (226 - pools.composites.length) = 226 := by omega
  rw [last] at id length
  refine ⟨226 - pools.composites.length + 1, arraySuffixes_reached reached _ _, ?_, ?_⟩
  · intro type there
    refine ⟨_, ?_, List.mem_singleton.mp there⟩
    rw [id]
    rintro index ⟨⟩
    rw [length]
    exact Nat.lt_succ_self 226
  · rw [id]
    exact oneParameter_narrow

theorem compileFunctionAs_types_number :
    Survives (oneParameter TYPE_NUMBER) (carryTypes (oneParameter TYPE_NUMBER) .new) :=
  (compileFunctionAs_types_iff .start (oneParameter TYPE_NUMBER) (by
    intro type there
    exact ⟨.number, nofun, List.mem_singleton.mp there⟩)).mpr (by
    intro type there
    rw [List.mem_singleton.mp there]
    exact .inl (by decide))

end CScript.Compile
