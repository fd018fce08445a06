import KernelForge.Codegen.Recipe

/-!
# Addresses, loads and stores

An access forms a typed pointer: from a raw address and a byte offset, or to an element of an
array. Scalars are loaded and stored directly, truth values as bytes, vectors through the extended
set.
-/

namespace KernelForge.Codegen

open Lir (Kind ValueId ArrayId Region Address)
open Spirv (StorageClass)

def accessKind (k : Kind) : Kind := if k.isVector then k.element else k.storage

def Region.storage : Region → StorageClass
  | .perItem => StorageClass.function
  | .perGroup => StorageClass.workgroup

namespace Select

def pointerTo (k : Kind) (storage : StorageClass) : Select Temp := value (.pointer k storage)

/-- A byte offset or an index as a 64-bit integer. -/
def index64 (o : Lir.Operand) : Select Temp := do
  match o with
  | .const l => constant l.value .i64
  | .var v =>
    let k ← kindOf v
    let value ← operand o
    match k with
    | .i64 | .ptr => return value
    | .i8 | .i16 | .i32 =>
      let long ← typeOf .i64
      instr .sConvert long [.value value]
    | k => fail (.addressOrigin (.index v k))

/-- A raw address moved by a byte offset. -/
def displaced (start : Temp) : Option Lir.Operand → Select Temp
  | none => return start
  | some o => do
    let offset ← index64 o
    let long ← typeOf .i64
    instr .iAdd long [.value start, .value offset]

/-- A pointer made of a raw address and a byte offset. -/
def rawPointer (base : ValueId) (offset : Option Lir.Operand) (storage : StorageClass)
    (access : Kind) : Select Temp := do
  let k ← kindOf base
  if k ≠ .i64 ∧ k ≠ .ptr then fail (.addressOrigin (.base base k))
  else
    let start ← operand (.var base)
    let address ← displaced start offset
    let pointer ← pointerTo access storage
    instr .convertUToPtr pointer [.value address]

def arrayPointer (region : Region) (array : ArrayId) (index : Lir.Operand) (access : Kind) :
    Select Temp := do
  match (← read).array? array with
  | none => fail (.addressOrigin (.undeclared array))
  | some (kind, declared) =>
    if declared ≠ region then fail (.addressOrigin (.region array declared region))
    else
      let storage := Region.storage region
      let index ← index64 index
      let zeroTemp ← constant "0" .i64
      let elementPtr ← pointerTo kind.storage storage
      let storageTemp ← value (.array array)
      let pointer ← instr .inBoundsPtrAccessChain elementPtr
        [.value storageTemp, .value zeroTemp, .value index]
      if ← sameType kind.storage access then return pointer
      else
        let accessPtr ← pointerTo access storage
        instr .bitcast accessPtr [.value pointer]

/-- The pointer of an access. -/
def address (a : Address) (k : Kind) : Select Temp :=
  match a with
  | .heap base offset => rawPointer base offset StorageClass.crossWorkgroup (accessKind k)
  | .generic base offset => rawPointer base offset StorageClass.generic (accessKind k)
  | .array region array index => arrayPointer region array index (accessKind k)

def load (dst : ValueId) (a : Address) : Select Unit := do
  let k ← kindOf dst
  let pointer ← address a k
  let args := Arg.value pointer :: aligned k.storage.size
  if k.isVector then
    let type ← typeOf k
    let zeroTemp ← constant "0" .i64
    effect (.defineMath dst .vloadn type [.value zeroTemp, .value pointer, .literal k.lanes])
  else if k.isBool then
    let byte ← typeOf .i8
    let raw ← instr .load byte args
    let zeroTemp ← constant "0" .i8
    defineAs dst .iNotEqual (← typeOf .bool) [.value raw, .value zeroTemp]
  else defineAs dst .load (← typeOf k) args

/-- The form in which a value is stored: a truth value is stored as a byte. -/
def storedForm (k : Kind) (t : Temp) : Select Temp := do
  if k.isBool then
    let byte ← typeOf .i8
    let oneTemp ← constant "1" .i8
    let zeroTemp ← constant "0" .i8
    instr .select byte [.value t, .value oneTemp, .value zeroTemp]
  else return t

def store (a : Address) (value : Lir.Operand) : Select Unit := do
  let k ← operandKind value
  let pointer ← address a k
  let t ← operand value
  if k.isVector then
    let void ← typeOf .void
    let zeroTemp ← constant "0" .i64
    let _ ← Select.value (.math .vstoren void [.value t, .value zeroTemp, .value pointer])
  else
    let stored ← storedForm k t
    effect (.perform .store (.value pointer :: .value stored :: aligned k.storage.size))

end Select

end KernelForge.Codegen
