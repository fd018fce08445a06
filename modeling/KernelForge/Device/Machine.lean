import KernelForge.Device.Heap
import KernelForge.Device.Program
import KernelForge.Device.Range

/-!
# Running work-items

A work-item runs one instruction at a time on a stack of frames over a store: the heap, the
variables of its workgroup and its own variables. Each instruction but the merges at the head of a
block takes one step, and a work-item has `stepLimit` steps. A step that faults changes nothing,
so the store at a fault is the store before it. Work-items run one after another and barriers have
nothing to wait for.
-/

namespace KernelForge.Device

open Binary (mask word64)
open Spirv (Id Opcode Operand Instruction MathOp StorageClass)

/-- Steps a work-item may take. -/
def stepLimit : Nat := Nat.pow 2 26

/-- Calls that may be open at a time. -/
def callDepthLimit : Nat := 64

abbrev Locals := Std.TreeMap Id Value

/-- Memory a work-item sees. -/
structure Store where
  heap : Heap
  /-- Variables of the workgroup. -/
  groupVars : Std.TreeMap Id (Array UInt8)
  /-- Variables of the work-item, in order of creation. -/
  itemVars : Array (Array UInt8)
deriving Inhabited

/-- A call in progress. -/
structure Frame where
  function : Id
  code : Function
  locals : Locals
  /-- The block that runs. -/
  label : Id
  /-- Instructions of the block still to run. -/
  rest : List Instruction
  /-- What the caller names the result. -/
  result : Option Id
deriving Inhabited

/-- A work-item in progress. -/
structure State where
  frame : Frame
  callers : List Frame
  store : Store
deriving Inhabited

/-- What surrounds a work-item. -/
structure Env where
  program : Program
  item : WorkItem

/-! ## Values -/

namespace Env

def globalPointer (id : Id) (g : Global) : Except Fault Value :=
  match g.builtIn with
  | some b =>
    if g.storage = StorageClass.input then .ok (.pointer ⟨.input b, 0, g.pointee⟩)
    else if g.storage = StorageClass.workgroup then .ok (.pointer ⟨.perGroup id, 0, g.pointee⟩)
    else .error (.globalStorage id g.storage)
  | none =>
    if g.storage = StorageClass.workgroup then .ok (.pointer ⟨.perGroup id, 0, g.pointee⟩)
    else .error (.globalStorage id g.storage)

/-- The value of an id: a local value, a constant, or a pointer to a module variable. -/
def value (env : Env) (locals : Locals) (id : Id) : Except Fault Value :=
  match locals[id]? with
  | some v => .ok v
  | none =>
    match env.program.constants[id]? with
    | some v => .ok v
    | none =>
      match env.program.globals[id]? with
      | some g => globalPointer id g
      | none => .error (.undefinedId id)

/-- The value of the operand at a position. -/
def arg (env : Env) (locals : Locals) (i : Instruction) (index : Nat) : Except Fault Value := do
  env.value locals (← idAt i index)

/-- The values of the operands from a position on. -/
def argsFrom (env : Env) (locals : Locals) (i : Instruction) (start : Nat) :
    Except Fault (List Value) :=
  (List.range' start (i.operands.length - start)).mapM (env.arg locals i)

end Env

/-! ## Memory -/

def readVar (bytes : Array UInt8) (offset length : Nat) : Except Fault (List UInt8) :=
  if offset + length ≤ bytes.size then .ok (bytes.extract offset (offset + length)).toList
  else .error (.outOfBounds length offset)

/-- Put bytes into a variable at an offset. -/
def writeVar (bytes : Array UInt8) (offset : Nat) (data : List UInt8) :
    Except Fault (Array UInt8) :=
  if offset + data.length ≤ bytes.size then .ok (Heap.overwrite bytes offset data)
  else .error (.outOfBounds data.length offset)

namespace Store

def read (s : Store) (p : Pointer) (length : Nat) : Except Fault (List UInt8) :=
  match p.space with
  | .heap => s.heap.read p.offset length
  | .perItem slot =>
    match s.itemVars[slot]? with
    | some bytes => readVar bytes p.offset length
    | none => .error .danglingVariable
  | .perGroup v =>
    match s.groupVars[v]? with
    | some bytes => readVar bytes p.offset length
    | none => .error (.missingVariable v)
  | .input b => .error (.rawRead b)

def write (s : Store) (p : Pointer) (data : List UInt8) : Except Fault Store :=
  match p.space with
  | .heap => do return { s with heap := ← s.heap.write p.offset data }
  | .perItem slot =>
    match s.itemVars[slot]? with
    | some bytes => do
      return { s with itemVars := s.itemVars.setIfInBounds slot (← writeVar bytes p.offset data) }
    | none => .error .danglingVariable
  | .perGroup v =>
    match s.groupVars[v]? with
    | some bytes => do
      return { s with groupVars := s.groupVars.insert v (← writeVar bytes p.offset data) }
    | none => .error (.missingVariable v)
  | .input b => .error (.storeTo b)

end Store

namespace Env

def load (env : Env) (s : Store) (p : Pointer) (type : Id) : Except Fault Value :=
  match p.space with
  | .input b => do
    let e ← env.item.builtIn b
    return .vector (e.toList.map fun n => .ofBits n 64)
  | _ => do
    let bytes ← s.read p (← env.program.sizeOf type)
    env.program.decode bytes type

/-! ## Single instructions -/

/-- Walk along indices from a type: each enters an array or a vector. -/
def walk (env : Env) (locals : Locals) (i : Instruction) : List Nat → Int → Id → Except Fault Int
  | [], offset, _ => .ok offset
  | index :: rest, offset, current => do
    let n ← (← env.arg locals i index).asSigned
    let element ← match ← env.program.type current with
      | .array e _ | .vector e _ => .ok e
      | t => .error (.indexInto t)
    let size ← env.program.sizeOf element
    env.walk locals i rest (offset + n * size) element

def accessChain (env : Env) (locals : Locals) (i : Instruction) (fromElement : Bool) :
    Except Fault Value := do
  let base ← (← env.arg locals i 0).asPointer
  let count := i.operands.length
  let offset ←
    if fromElement then do
      let element ← (← env.arg locals i 1).asSigned
      let size ← env.program.sizeOf base.pointee
      env.walk locals i (List.range' 2 (count - 2)) (base.offset + element * size) base.pointee
    else env.walk locals i (List.range' 1 (count - 1)) base.offset base.pointee
  return .pointer ⟨base.space, word64 offset, ← env.program.pointee (← resultTypeOf i)⟩

/-- The value of a bitcast: a pointer keeps its place, any other value its image. -/
def bitcast (env : Env) (v : Value) (type : Id) : Except Fault Value := do
  match v, ← env.program.type type with
  | .pointer p, .pointer _ pointee => return .pointer { p with pointee }
  | v, _ =>
    let bytes ← encode v
    if bytes.length ≠ (← env.program.sizeOf type) then throw .bitcastSizes
    env.program.decode bytes type

/-- A lane of a composite value, and of its lanes in turn. -/
def extract (i : Instruction) : List Nat → Value → Except Fault Value
  | [], v => .ok v
  | index :: rest, v => do
    let lane ← literalAt i index
    match v with
    | .vector lanes =>
      match lanes[lane]? with
      | some v => extract i rest v
      | none => throw (.extractLane lane v)
    | v => throw (.extractLane lane v)

/-- The target of the first case with the selector's bits, or the default. -/
def findCase (bits width : Nat) : List Operand → Id → Id
  | .literal n :: .ref target :: rest, default
  | .long n :: .ref target :: rest, default =>
    if mask n width = bits then target else findCase bits width rest default
  | _, default => default

def switchTarget (env : Env) (locals : Locals) (i : Instruction) : Except Fault Id := do
  match ← env.arg locals i 0 with
  | .int bits width => return findCase bits width (i.operands.drop 2) (← idAt i 1)
  | v => throw (.switchOn v)

end Env

/-- What an instruction leads to. -/
inductive Flow where
  /-- On to the next instruction, with a result if there is one. -/
  | next (value : Option Value) (store : Store)
  | jump (label : Id)
  | call (callee : Id) (args : List Value)
  | ret (value : Option Value)

namespace Env

def extendedNumber : List Operand → Nat
  | _ :: .extInst n :: _ => n
  | _ => 0

def extended (env : Env) (locals : Locals) (s : Store) (i : Instruction) : Except Fault Flow := do
  if some (← idAt i 0) ≠ env.program.mathImport then throw .unknownSet
  let number := extendedNumber i.operands
  match MathOp.ofCode? number with
  | none => throw (.unsupportedMath number)
  | some .vloadn =>
    let type ← resultTypeOf i
    let index ← (← env.arg locals i 2).asWord
    let p ← (← env.arg locals i 3).asPointer
    let size ← env.program.sizeOf type
    let bytes ← s.read { p with offset := (p.offset + index * size) % Nat.pow 2 64 } size
    return .next (← env.program.decode bytes type) s
  | some .vstoren =>
    let data ← env.arg locals i 2
    let index ← (← env.arg locals i 3).asWord
    let p ← (← env.arg locals i 4).asPointer
    let bytes ← encode data
    let s ← s.write { p with offset := (p.offset + index * bytes.length) % Nat.pow 2 64 } bytes
    return .next none s
  | some op => return .next (← mapLanes (math op) (← env.argsFrom locals i 2)) s

def isConversion : Opcode → Bool
  | .sConvert | .uConvert | .fConvert | .convertSToF | .convertUToF | .convertFToS
  | .convertFToU => true
  | _ => false

/-- An operator applied to all operands, lane by lane. -/
def operator (env : Env) (locals : Locals) (i : Instruction) : Except Fault Value := do
  let args ← env.argsFrom locals i 0
  if isConversion i.opcode then
    let target ← env.program.laneType (← resultTypeOf i)
    mapLanes (fun
      | v :: _ => convert i.opcode v target
      | [] => .error (.operandCount i.opcode 0)) args
  else mapLanes (applyOperator i.opcode) args

def execute (env : Env) (locals : Locals) (s : Store) (i : Instruction) : Except Fault Flow := do
  match i.opcode with
  | .nop | .loopMerge | .selectionMerge | .controlBarrier | .memoryBarrier => return .next none s
  | .branch => return .jump (← idAt i 0)
  | .branchConditional =>
    let taken ← (← env.arg locals i 0).asBool
    return .jump (← idAt i (if taken then 1 else 2))
  | .switch => return .jump (← env.switchTarget locals i)
  | .returnVoid => return .ret none
  | .returnValue => return .ret (← env.arg locals i 0)
  | .unreachable => throw .unreachable
  | .phi => throw .phiNotFirst
  | .store =>
    let p ← (← env.arg locals i 0).asPointer
    let bytes ← encode (← env.arg locals i 1)
    return .next none (← s.write p bytes)
  | .variableDecl =>
    let pointee ← env.program.pointee (← resultTypeOf i)
    let size ← env.program.sizeOf pointee
    return .next (some (.pointer ⟨.perItem s.itemVars.size, 0, pointee⟩))
      { s with itemVars := s.itemVars.push (Array.replicate size 0) }
  | .load =>
    let p ← (← env.arg locals i 0).asPointer
    return .next (← env.load s p (← resultTypeOf i)) s
  | .accessChain | .inBoundsAccessChain => return .next (← env.accessChain locals i false) s
  | .ptrAccessChain | .inBoundsPtrAccessChain => return .next (← env.accessChain locals i true) s
  | .convertUToPtr =>
    let offset ← (← env.arg locals i 0).asWord
    return .next (some (.pointer ⟨.heap, offset, ← env.program.pointee (← resultTypeOf i)⟩)) s
  | .bitcast =>
    let v ← env.arg locals i 0
    return .next (← env.bitcast v (← resultTypeOf i)) s
  | .copyObject => return .next (← env.arg locals i 0) s
  | .undef => return .next (← env.program.zero (← resultTypeOf i)) s
  | .select =>
    let condition ← (← env.arg locals i 0).asBool
    return .next (← env.arg locals i (if condition then 1 else 2)) s
  | .compositeExtract =>
    let v ← env.arg locals i 0
    return .next (← extract i (List.range' 1 (i.operands.length - 1)) v) s
  | .compositeInsert =>
    let object ← env.arg locals i 0
    let composite ← env.arg locals i 1
    let lane ← literalAt i 2
    match composite with
    | .vector lanes =>
      if lane < lanes.length then return .next (some (.vector (lanes.set lane object))) s
      else throw (.insertLane lane composite)
    | v => throw (.insertLane lane v)
  | .functionCall =>
    let args ← env.argsFrom locals i 1
    return .call (← idAt i 0) args
  | .extInst => env.extended locals s i
  | _ => return .next (← env.operator locals i) s

/-! ## Blocks and calls -/

/-- The value of the first pair with a label. -/
def incoming (label : Id) : List Operand → Option Id
  | .ref value :: .ref source :: rest =>
    if source = label then some value else incoming label rest
  | _ :: _ :: rest => incoming label rest
  | _ => none

/-- The value a merge takes when control comes from a block. -/
def merge (env : Env) (locals : Locals) (previous : Option Id) (i : Instruction) :
    Except Fault (Id × Value) :=
  match previous with
  | none => .error .phiInEntry
  | some label =>
    match incoming label i.operands with
    | none => .error (.phiMissing (i.result.getD 0) label)
    | some id => do return (← resultOf i, ← env.value locals id)

/-- Enter a block: its merges read all their values before any is set. -/
def enter (env : Env) (f : Frame) (previous : Option Id) (b : Block) : Except Fault Frame := do
  let isMerge (i : Instruction) : Bool := i.opcode == .phi
  let merged ← (b.body.takeWhile isMerge).mapM (env.merge f.locals previous)
  return { f with
    locals := merged.foldl (fun l e => l.insert e.1 e.2) f.locals
    label := b.label
    rest := b.body.dropWhile isMerge }

def findBlock (f : Function) (label : Id) : Option Block :=
  f.blocks.foldl (fun found b => if b.label == label then some b else found) none

/-- Start a call; `depth` calls are open. -/
def begin (env : Env) (callee : Id) (args : List Value) (depth : Nat) (result : Option Id) :
    Except Fault Frame := do
  if callDepthLimit < depth then throw .callDepth
  let code ← env.program.function callee
  if args.length ≠ code.params.length then
    throw (.argumentCount callee code.params.length args.length)
  let locals := (code.params.zip args).foldl (fun (l : Locals) e => l.insert e.1.1 e.2) ∅
  match code.blocks with
  | [] => throw (.noBlock callee 0)
  | b :: _ => env.enter ⟨callee, code, locals, b.label, [], result⟩ none b

def setResult (f : Frame) (result : Option Id) : Option Value → Frame
  | none => f
  | some v =>
    match result with
    | none => f
    | some id => { f with locals := f.locals.insert id v }

/-- Run one instruction. The result is the next state, or the store when the outermost
call returns. -/
def step (env : Env) (s : State) (i : Instruction) (rest : List Instruction) :
    Except Fault (State ⊕ Store) := do
  match ← env.execute s.frame.locals s.store i with
  | .next v store => return .inl ⟨setResult { s.frame with rest } i.result v, s.callers, store⟩
  | .jump label =>
    match findBlock s.frame.code label with
    | none => throw (.unknownBlock label)
    | some b => return .inl { s with frame := ← env.enter s.frame (some s.frame.label) b }
  | .call callee args =>
    let frame ← env.begin callee args (s.callers.length + 1) i.result
    return .inl ⟨frame, { s.frame with rest } :: s.callers, s.store⟩
  | .ret v =>
    match s.callers with
    | [] => return .inr s.store
    | caller :: callers => return .inl ⟨setResult caller s.frame.result v, callers, s.store⟩

/-- Run a work-item for at most the given number of steps. -/
def run (env : Env) : Nat → State → Store × Option Fault
  | 0, s =>
    (s.store,
      some (if s.frame.rest.isEmpty then .noTerminator s.frame.label else .stepLimit stepLimit))
  | steps + 1, s =>
    match s.frame.rest with
    | [] => (s.store, some (.noTerminator s.frame.label))
    | i :: rest =>
      match env.step s i rest with
      | .error fault => (s.store, some fault)
      | .ok (.inr store) => (store, none)
      | .ok (.inl s) => env.run steps s

end Env

/-! ## Launches -/

namespace Program

/-- Zeroed variables of a workgroup. -/
def groupStorage (p : Program) : Except Fault (Std.TreeMap Id (Array UInt8)) :=
  p.globals.toList.foldlM (fun vars (id, g) => do
    if g.storage = StorageClass.workgroup then
      return vars.insert id (Array.replicate (← p.sizeOf g.pointee) 0)
    else return vars) ∅

def runItem (p : Program) (entry : Id) (args : List Value) (item : WorkItem) (store : Store) :
    Store × Option Fault :=
  let env : Env := ⟨p, item⟩
  let store := { store with itemVars := #[] }
  match env.begin entry args 0 none with
  | .error fault => (store, some fault)
  | .ok frame => env.run stepLimit ⟨frame, [], store⟩

/-- Run as many work-items of a workgroup as told from a position on, one after another up to the
first fault. -/
def runItems (p : Program) (entry : Id) (args : List Value) (range : Range) (group : Extent) :
    Nat → Nat → Store → Store × Option Fault
  | 0, _, store => (store, none)
  | count + 1, position, store =>
    match p.runItem entry args (range.item group (range.perGroup.point position)) store with
    | (store, none) => p.runItems entry args range group count (position + 1) store
    | (store, some fault) => (store, some fault)

/-- Run a workgroup, which has variables of its own. -/
def runGroup (p : Program) (entry : Id) (args : List Value) (range : Range) (group : Extent)
    (heap : Heap) : Heap × Option Fault :=
  match p.groupStorage with
  | .error fault => (heap, some fault)
  | .ok vars =>
    let (store, fault) :=
      p.runItems entry args range group range.perGroup.volume 0 ⟨heap, vars, #[]⟩
    (store.heap, fault)

/-- Run as many workgroups as told from a position on, one after another up to the first fault. -/
def runGroups (p : Program) (entry : Id) (args : List Value) (range : Range) :
    Nat → Nat → Heap → Heap × Option Fault
  | 0, _, heap => (heap, none)
  | count + 1, position, heap =>
    match p.runGroup entry args range (range.groups.point position) heap with
    | (heap, none) => p.runGroups entry args range count (position + 1) heap
    | (heap, some fault) => (heap, some fault)

/-- The arguments of an entry point: the start of the heap and the place of the frame in it. -/
def entryArgs (p : Program) (entry : Id) (base frame : Nat) : Except Fault (List Value) := do
  let f ← p.function entry
  match f.params with
  | [(_, heapType), (_, frameType)] =>
    let pointee ← p.pointee heapType
    return [.pointer ⟨.heap, base, pointee⟩, ← p.ofBits frame frameType]
  | params => throw (.kernelParams params.length)

/-- Run an entry point over a range. The heap holds what was written before a fault. -/
def launch (p : Program) (entry : Id) (range : Range) (base frame : Nat) (heap : Heap) :
    Heap × Option Fault :=
  match p.entryArgs entry base frame with
  | .error fault => (heap, some fault)
  | .ok args => p.runGroups entry args range range.groups.volume 0 heap

end Program

end KernelForge.Device
