import KernelForge.Codegen.Access
import KernelForge.Codegen.Builtins
import KernelForge.Codegen.Lanes
import KernelForge.Codegen.Operators

/-!
# Recipes of operations and parameters

The recipe of each operation that is no merge, of the condition of a branch, and of the parameters
of a function. The arguments of a kernel stand in a frame in the heap, one in each 64-bit slot.
-/

namespace KernelForge.Codegen

open Lir (Kind ValueId Fence ThreadQuery)
open Spirv (Opcode StorageClass)

/-- Slots of a parameter frame ahead of the first argument. -/
def reservedSlots : Nat := 3

namespace Select

/-! ## Calls, coordinates and barriers -/

def call (dst : Option ValueId) (callee : String) (args : List Lir.Operand) : Select Unit := do
  match (← read).callee? callee with
  | none => fail (.unknownFunction callee)
  | some interface =>
    if interface.role = .kernel then fail (.unimplemented (.callKernel callee))
    else if interface.params.length ≠ args.length then
      fail (.unimplemented (.callArity callee args.length interface.params.length))
    else
      let target ← value (.callee callee)
      let temps ← (args.zip interface.params).mapM fun (arg, k) => operandAs arg k
      let args : List Arg := .value target :: temps.map .value
      let ret ← typeOf interface.returnKind
      match dst with
      | some dst => defineAs dst .functionCall ret args
      | none => let _ ← instr .functionCall ret args

/-- A coordinate of the work-item. -/
def threadId (dst : ValueId) (query : ThreadQuery) (dimension : UInt32) : Select Unit := do
  if 2 < dimension.toNat then fail (.unimplemented (.dimension query dimension.toNat))
  else
    let dstKind ← kindOf dst
    if !dstKind.isIntegral || dstKind.isVector then fail (.unsupportedKind (.query query dstKind))
    else
      let source ← value (.coordinate query)
      let vectorType ← typeOf coordinateKind
      let long ← typeOf .i64
      let loaded ← instr .load vectorType [.value source]
      let args : List Arg := [.value loaded, .literal dimension.toNat]
      if dstKind.size = 8 then defineAs dst .compositeExtract long args
      else
        let wide ← instr .compositeExtract long args
        defineAs dst .uConvert (← typeOf dstKind) [.value wide]

/-- Memory order of a barrier: sequential consistency and the fenced memory. -/
def semantics : Fence → Nat
  | .workgroup => 0x10 + 0x100
  | .heap => 0x10 + 0x200

def barrier (fence : Fence) : Select Unit := do
  let scope ← constant "2" .i32
  let order ← constant (Text.natText (semantics fence)) .i32
  effect (.perform .controlBarrier [.value scope, .value scope, .value order])

def op : Lir.Op → Select Unit
  | .binary dst op lhs rhs => binary dst op lhs rhs
  | .unary dst op src => unary dst op src
  | .convert dst op src => convert dst op src
  | .select dst cmp lhs rhs onTrue onFalse => select dst cmp lhs rhs onTrue onFalse
  | .integerTest dst lhs rhs => integerTest dst lhs rhs
  | .intrinsic dst op args => intrinsic dst op args
  | .move dst src => move dst src
  | .load dst a => load dst a
  | .store a value => store a value
  | .vectorBuild dst elements => vectorBuild dst elements
  | .vectorExtract dst vector lane => vectorExtract dst vector lane
  | .vectorInsert dst vector lane value => vectorInsert dst vector lane value
  | .call dst callee args => call dst callee args
  | .phi dst _ => fail (.unimplemented (.lateMerge dst))
  | .threadId dst query dimension => threadId dst query dimension
  | .barrier fence => barrier fence

/-! ## Conditions -/

/-- The condition of a branch: a truth value, or an integer compared with zero. -/
def condition (o : Lir.Operand) : Select Temp := do
  let k ← operandKind o
  if k.isBool then operand o
  else if !k.isIntegral then fail (.unimplemented (.branchOn k))
  else
    let t ← operand o
    let zeroTemp ← constant "0" k
    let boolType ← typeOf .bool
    instr .iNotEqual boolType [.value t, .value zeroTemp]

def selector (o : Lir.Operand) : Select (Temp × Kind) := do
  let k ← operandKind o
  if !k.isIntegral then fail (.unimplemented (.switchOn k))
  else return (← operand o, k)

/-! ## Parameters -/

def convertSlot (opcode : Opcode) (k : Kind) (t : Temp) : Select Temp := do
  let type ← typeOf k
  instr opcode type [.value t]

def slotValue (raw : Temp) (k : Kind) : Select Temp :=
  match k with
  | .i64 | .ptr => return raw
  | .i8 | .i16 | .i32 => convertSlot .uConvert k raw
  | .f64 => convertSlot .bitcast k raw
  | .f32 => do convertSlot .bitcast k (← convertSlot .uConvert .i32 raw)
  | .f16 => do convertSlot .bitcast k (← convertSlot .uConvert .i16 raw)
  | .bool => do
    let zeroTemp ← constant "0" .i64
    let boolType ← typeOf .bool
    instr .iNotEqual boolType [.value raw, .value zeroTemp]
  | .vector _ _ | .void => fail (.unimplemented (.kernelParam k))

/-- Read the arguments of a kernel from the frame, from a slot on. -/
def frameParams (frame slotPtr long : Temp) : Nat → List Lir.Param → Select Unit
  | _, [] => return ()
  | slot, param :: rest => do
    let index ← constant (Text.natText slot) .i64
    let place ← instr .inBoundsPtrAccessChain slotPtr [.value frame, .value index]
    let raw ← instr .load long (.value place :: aligned 8)
    forward param.var (← slotValue raw param.kind)
    frameParams frame slotPtr long (slot + 1) rest

/-- Define the parameters of a kernel: they are in the frame, which lies at an offset in the
heap. -/
def kernelParams (heap frameBase : Temp) (params : List Lir.Param) : Select Unit := do
  let bytePtr ← pointerTo .i8 StorageClass.crossWorkgroup
  let slotPtr ← pointerTo .i64 StorageClass.crossWorkgroup
  let long ← typeOf .i64
  let bytes ← instr .inBoundsPtrAccessChain bytePtr [.value heap, .value frameBase]
  let frame ← instr .bitcast slotPtr [.value bytes]
  frameParams frame slotPtr long reservedSlots params

/-- Define the parameters of a device function, from a value on. -/
def deviceParams : Temp → List Lir.Param → Select Unit
  | _, [] => return ()
  | t, param :: rest => do
    forward param.var t
    deviceParams (t + 1) rest

/-- Define the parameters of a function. The first values of the recipe are the
parameters of the emitted function. -/
def params : Select Unit := do
  let f := (← read).function
  match f.role with
  | .kernel => kernelParams 0 1 f.params
  | .device => deviceParams 0 f.params

end Select

end KernelForge.Codegen
