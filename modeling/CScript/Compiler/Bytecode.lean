/-
The VM instruction set, and how long each instruction is.

The enumeration is the X-macro's list in its order, since a byte of a chunk is an
index into it.  The operand layout is the disassembler's, which is the one place
the runtime asks how long an instruction is.
-/

import CScript.Runtime.Value

namespace CScript.Compile

/-! ### Opcodes -/

inductive OpCode where
  | OP_CONSTANT
  | OP_NULL
  | OP_UNDEFINED
  | OP_TRUE
  | OP_FALSE
  | OP_POP
  | OP_POP_N
  | OP_DUP
  | OP_DUP2
  | OP_POP_UNDER
  | OP_DEFINE_GLOBAL
  | OP_DEFINE_CONST
  | OP_GET_GLOBAL
  | OP_SET_GLOBAL
  | OP_GET_LOCAL
  | OP_SET_LOCAL
  | OP_INC_LOCAL
  | OP_DEC_LOCAL
  | OP_SET_LOCAL_POP
  | OP_SET_GLOBAL_POP
  | OP_GET_LOCAL_CONST
  | OP_GET_LOCAL_LOCAL
  | OP_GET_PROPERTY
  | OP_SET_PROPERTY
  | OP_SET_PROPERTY_POP
  | OP_GET_LOCAL_PROPERTY
  | OP_GET_INDEX
  | OP_ITER_LENGTH
  | OP_DESTRUCTURE_PREPARE
  | OP_ITER_STEP
  | OP_JUMP_IF_ASYNC_ITER
  | OP_ASYNC_NEXT
  | OP_ITER_UNPACK
  | OP_ENUM_KEYS
  | OP_ITER_PREPARE
  | OP_REGEX
  | OP_SET_INDEX
  | OP_OBJECT
  | OP_ARRAY
  | OP_SPREAD_MARK
  | OP_ARRAY_SPREAD
  | OP_GET_PRIVATE
  | OP_SET_PRIVATE
  | OP_DELETE_PROPERTY
  | OP_DELETE_INDEX
  | OP_OBJECT_SET
  | OP_OBJECT_ACCESSOR
  | OP_OBJECT_MERGE
  | OP_SET_PROTOTYPE
  | OP_NEW_TARGET
  | OP_DYNAMIC_IMPORT
  | OP_OBJECT_REST
  | OP_TEMPLATE_STRINGS
  | OP_ARRAY_REST
  | OP_CALL_SPREAD
  | OP_CALL
  | OP_INVOKE
  | OP_INVOKE_INDEX
  | OP_CLASS
  | OP_INHERIT
  | OP_METHOD
  | OP_STATIC_METHOD
  | OP_STATIC_FIELD
  | OP_GETTER
  | OP_SETTER
  | OP_STATIC_GETTER
  | OP_STATIC_SETTER
  | OP_CLASS_MEMBER
  | OP_CONSTRUCTOR
  | OP_FIELD_INIT
  | OP_NEW
  | OP_GET_SUPER
  | OP_SUPER_INVOKE
  | OP_SUPER_CALL
  | OP_IN
  | OP_INSTANCEOF
  | OP_IMPORT_NAME
  | OP_IMPORT_NAMESPACE
  | OP_YIELD
  | OP_AWAIT
  | OP_CLOSURE
  | OP_GET_UPVALUE
  | OP_SET_UPVALUE
  | OP_CLOSE_UPVALUE
  | OP_ADD
  | OP_ADD_NUM
  | OP_SUBTRACT
  | OP_MULTIPLY
  | OP_DIVIDE
  | OP_MODULO
  | OP_EXPONENT
  | OP_NEGATE
  | OP_NOT
  | OP_TYPEOF
  | OP_EQUAL
  | OP_NOT_EQUAL
  | OP_GREATER
  | OP_GREATER_EQUAL
  | OP_LESS
  | OP_LESS_EQUAL
  | OP_JUMP
  | OP_JUMP_IF_FALSE
  | OP_JUMP_IF_TRUE
  | OP_POP_JUMP_IF_FALSE
  | OP_JUMP_IF_NULLISH
  | OP_JUMP_IF_NOT_NULLISH
  | OP_JUMP_IF_NO_METHOD
  | OP_LOOP
  | OP_JUMP_IF_NOT_LESS
  | OP_JUMP_IF_NOT_LESS_EQUAL
  | OP_JUMP_IF_NOT_GREATER
  | OP_JUMP_IF_NOT_GREATER_EQUAL
  | OP_JUMP_IF_NOT_EQUAL
  | OP_JUMP_IF_EQUAL
  | OP_TRY
  | OP_END_TRY
  | OP_THROW
  | OP_RETURN
  deriving DecidableEq, Repr

namespace OpCode

def all : List OpCode :=
  [.OP_CONSTANT, .OP_NULL, .OP_UNDEFINED, .OP_TRUE, .OP_FALSE, .OP_POP, .OP_POP_N, .OP_DUP,
    .OP_DUP2, .OP_POP_UNDER, .OP_DEFINE_GLOBAL, .OP_DEFINE_CONST, .OP_GET_GLOBAL, .OP_SET_GLOBAL,
    .OP_GET_LOCAL, .OP_SET_LOCAL, .OP_INC_LOCAL, .OP_DEC_LOCAL, .OP_SET_LOCAL_POP,
    .OP_SET_GLOBAL_POP, .OP_GET_LOCAL_CONST, .OP_GET_LOCAL_LOCAL, .OP_GET_PROPERTY,
    .OP_SET_PROPERTY, .OP_SET_PROPERTY_POP, .OP_GET_LOCAL_PROPERTY, .OP_GET_INDEX,
    .OP_ITER_LENGTH, .OP_DESTRUCTURE_PREPARE, .OP_ITER_STEP, .OP_JUMP_IF_ASYNC_ITER,
    .OP_ASYNC_NEXT, .OP_ITER_UNPACK, .OP_ENUM_KEYS, .OP_ITER_PREPARE, .OP_REGEX, .OP_SET_INDEX,
    .OP_OBJECT, .OP_ARRAY, .OP_SPREAD_MARK, .OP_ARRAY_SPREAD, .OP_GET_PRIVATE, .OP_SET_PRIVATE,
    .OP_DELETE_PROPERTY, .OP_DELETE_INDEX, .OP_OBJECT_SET, .OP_OBJECT_ACCESSOR, .OP_OBJECT_MERGE,
    .OP_SET_PROTOTYPE, .OP_NEW_TARGET, .OP_DYNAMIC_IMPORT, .OP_OBJECT_REST, .OP_TEMPLATE_STRINGS,
    .OP_ARRAY_REST, .OP_CALL_SPREAD, .OP_CALL, .OP_INVOKE, .OP_INVOKE_INDEX, .OP_CLASS,
    .OP_INHERIT, .OP_METHOD, .OP_STATIC_METHOD, .OP_STATIC_FIELD, .OP_GETTER, .OP_SETTER,
    .OP_STATIC_GETTER, .OP_STATIC_SETTER, .OP_CLASS_MEMBER, .OP_CONSTRUCTOR, .OP_FIELD_INIT,
    .OP_NEW, .OP_GET_SUPER, .OP_SUPER_INVOKE, .OP_SUPER_CALL, .OP_IN, .OP_INSTANCEOF,
    .OP_IMPORT_NAME, .OP_IMPORT_NAMESPACE, .OP_YIELD, .OP_AWAIT, .OP_CLOSURE, .OP_GET_UPVALUE,
    .OP_SET_UPVALUE, .OP_CLOSE_UPVALUE, .OP_ADD, .OP_ADD_NUM, .OP_SUBTRACT, .OP_MULTIPLY,
    .OP_DIVIDE, .OP_MODULO, .OP_EXPONENT, .OP_NEGATE, .OP_NOT, .OP_TYPEOF, .OP_EQUAL,
    .OP_NOT_EQUAL, .OP_GREATER, .OP_GREATER_EQUAL, .OP_LESS, .OP_LESS_EQUAL, .OP_JUMP,
    .OP_JUMP_IF_FALSE, .OP_JUMP_IF_TRUE, .OP_POP_JUMP_IF_FALSE, .OP_JUMP_IF_NULLISH,
    .OP_JUMP_IF_NOT_NULLISH, .OP_JUMP_IF_NO_METHOD, .OP_LOOP, .OP_JUMP_IF_NOT_LESS,
    .OP_JUMP_IF_NOT_LESS_EQUAL, .OP_JUMP_IF_NOT_GREATER, .OP_JUMP_IF_NOT_GREATER_EQUAL,
    .OP_JUMP_IF_NOT_EQUAL, .OP_JUMP_IF_EQUAL, .OP_TRY, .OP_END_TRY, .OP_THROW, .OP_RETURN]

def byte (op : OpCode) : UInt8 :=
  UInt8.ofNat op.ctorIdx

def ofByte? (byte : UInt8) : Option OpCode :=
  all[byte.toNat]?

@[simp]
theorem ofByte?_byte (op : OpCode) : ofByte? op.byte = some op := by
  cases op <;> rfl

end OpCode

/-! ### Operand layouts -/

inductive Layout where
  | simple
  | byte
  | constant
  | cached
  | invoke
  | slotConstant
  | slotSlot
  | slotCached
  | twoConstants
  | jump
  | constantJump
  | loop
  | closure
  deriving DecidableEq, Repr

namespace Layout

def operandBytes : Layout → Nat
  | simple => 0
  | byte => 1
  | constant => 2
  | cached => 4
  | invoke => 3
  | slotConstant => 3
  | slotSlot => 2
  | slotCached => 5
  | twoConstants => 4
  | jump => 2
  | constantJump => 4
  | loop => 2
  | closure => 2

end Layout

namespace OpCode

/-- The switch of `csDisassembleInstruction`. -/
def layout : OpCode → Layout
  | OP_CONSTANT | OP_DEFINE_GLOBAL | OP_DEFINE_CONST | OP_GET_PRIVATE | OP_SET_PRIVATE
  | OP_DELETE_PROPERTY | OP_CLASS | OP_IMPORT_NAME | OP_METHOD | OP_STATIC_METHOD
  | OP_STATIC_FIELD | OP_GETTER | OP_SETTER | OP_STATIC_GETTER | OP_STATIC_SETTER
  | OP_GET_SUPER => .constant
  | OP_POP_N | OP_GET_LOCAL | OP_SET_LOCAL | OP_SET_LOCAL_POP | OP_INC_LOCAL | OP_DEC_LOCAL
  | OP_DESTRUCTURE_PREPARE | OP_ITER_PREPARE | OP_OBJECT | OP_ARRAY | OP_ARRAY_SPREAD
  | OP_INVOKE_INDEX | OP_OBJECT_ACCESSOR | OP_OBJECT_REST | OP_ARRAY_REST | OP_GET_UPVALUE
  | OP_SET_UPVALUE | OP_CALL | OP_NEW | OP_SUPER_CALL | OP_CLASS_MEMBER => .byte
  | OP_GET_GLOBAL | OP_SET_GLOBAL | OP_SET_GLOBAL_POP | OP_GET_PROPERTY | OP_SET_PROPERTY
  | OP_SET_PROPERTY_POP => .cached
  | OP_SUPER_INVOKE | OP_INVOKE => .invoke
  | OP_GET_LOCAL_CONST => .slotConstant
  | OP_GET_LOCAL_LOCAL => .slotSlot
  | OP_GET_LOCAL_PROPERTY => .slotCached
  | OP_REGEX => .twoConstants
  | OP_ITER_STEP | OP_JUMP_IF_ASYNC_ITER | OP_ITER_UNPACK | OP_JUMP | OP_JUMP_IF_FALSE
  | OP_JUMP_IF_TRUE | OP_JUMP_IF_NULLISH | OP_JUMP_IF_NOT_NULLISH | OP_POP_JUMP_IF_FALSE
  | OP_TRY | OP_JUMP_IF_NOT_LESS | OP_JUMP_IF_NOT_LESS_EQUAL | OP_JUMP_IF_NOT_GREATER
  | OP_JUMP_IF_NOT_GREATER_EQUAL | OP_JUMP_IF_NOT_EQUAL | OP_JUMP_IF_EQUAL => .jump
  | OP_JUMP_IF_NO_METHOD => .constantJump
  | OP_LOOP => .loop
  | OP_CLOSURE => .closure
  | _ => .simple

end OpCode

/-! ### Chunks -/

/-- What the compiler puts in a constant pool.  A function stands for the object,
so it equals no other entry. -/
inductive Constant (Function : Type) where
  | number (value : Double)
  | string (chars : List UInt8)
  | bigint (chars : List UInt8)
  | function (function : Function)
  | module (path : List UInt8)

structure Chunk (Function : Type) where
  code : List UInt8
  constants : List (Constant Function)
  propertyCacheCount : Nat
  globalCacheCount : Nat
  /-- The offsets `patchJump` has filled in, in the order it did.  The runtime
  keeps no such list: it is what the bytes cannot tell. -/
  patched : List Nat

namespace Chunk

def init (Function : Type) : Chunk Function :=
  ⟨[], [], 0, 0, []⟩

end Chunk

abbrev TypeId := Nat

def TYPE_DYNAMIC : TypeId := 0
def TYPE_NUMBER : TypeId := 2

/-- A function the compiler produced.  `arity` is the count below which a call is
a mistake, `paramTypes` and `returnType` what its annotations said. -/
structure ObjFunction where
  name : Option (List UInt8)
  chunk : Chunk ObjFunction
  upvalueCount : Nat
  arity : Nat
  paramCount : Nat
  hasRest : Bool
  isAsync : Bool
  isGenerator : Bool
  isMethod : Bool
  usesThis : Bool
  paramTypes : List UInt8
  returnType : UInt8
  typedSites : Nat
  genericSites : Nat

namespace ObjFunction

/-- `csFunctionNew`. -/
def new : ObjFunction :=
  { name := none
    chunk := Chunk.init ObjFunction
    upvalueCount := 0
    arity := 0
    paramCount := 0
    hasRest := false
    isAsync := false
    isGenerator := false
    isMethod := false
    usesThis := false
    paramTypes := []
    returnType := UInt8.ofNat TYPE_DYNAMIC
    typedSites := 0
    genericSites := 0 }

end ObjFunction

def readConstantIndex (code : List UInt8) (offset : Nat) : Nat :=
  (code.getD offset 0).toNat * 256 + (code.getD (offset + 1) 0).toNat

/-- How many upvalue pairs follow an `OP_CLOSURE` that names this constant. -/
def closurePairs (constants : List (Constant ObjFunction)) (index : Nat) : Nat :=
  match constants[index]? with
  | some (.function function) => function.upvalueCount
  | _ => 0

/-- The offset just past the instruction at `offset`; a byte that is no opcode
counts as one. -/
def csInstructionLength (chunk : Chunk ObjFunction) (offset : Nat) : Nat :=
  match OpCode.ofByte? (chunk.code.getD offset 0) with
  | none => offset + 1
  | some op =>
      let next := offset + 1 + op.layout.operandBytes
      if op.layout = .closure then
        next + 2 * closurePairs chunk.constants (readConstantIndex chunk.code (offset + 1))
      else next

end CScript.Compile
