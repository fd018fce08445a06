import KernelForge.Device.Arithmetic
import Std.Data.TreeMap

/-!
# Programs ready to run

A program is a module with its declarations evaluated: types, constants, module variables,
functions and entry points. Building one checks that every instruction is one the device carries
out. Values have images in memory: `encode` writes one, `decode` reads one of a given type.
-/

namespace KernelForge.Device

open Binary (bytesLE natLE)
open Spirv (Id Opcode Instruction Module StorageClass BuiltIn LoadFault)

/-- A variable of a module. -/
structure Global where
  storage : StorageClass
  pointee : Id
  builtIn : Option BuiltIn
deriving Repr, Inhabited

structure Block where
  label : Id
  body : List Instruction
deriving Repr, Inhabited

/-- A function: parameters with their types, and blocks. -/
structure Function where
  params : List (Id × Id)
  blocks : List Block
deriving Repr, Inhabited

structure Program where
  types : Std.TreeMap Id Ty := ∅
  constants : Std.TreeMap Id Value := ∅
  globals : Std.TreeMap Id Global := ∅
  functions : Std.TreeMap Id Function := ∅
  /-- Entry points by name, in the order of the module. -/
  entries : List (String × Id) := []
  /-- Where the extended set is imported. -/
  mathImport : Option Id := none
deriving Inhabited

/-! ## Operands -/

def idAt (i : Instruction) (index : Nat) : Except Fault Id :=
  match i.operands[index]? with
  | some (.ref id) => .ok id
  | found => .error (.operandMismatch i.opcode index found true)

def literalAt (i : Instruction) (index : Nat) : Except Fault Nat :=
  match i.operands[index]? with
  | some (.literal n) => .ok n
  | found => .error (.operandMismatch i.opcode index found false)

def resultOf (i : Instruction) : Except Fault Id :=
  match i.result with
  | some id => .ok id
  | none => .error (.noResult i.opcode)

def resultTypeOf (i : Instruction) : Except Fault Id :=
  match i.resultType with
  | some id => .ok id
  | none => .error (.noResultType i.opcode)

/-! ## Images of values -/

/-- Number of bytes a number of a width takes. -/
def floatBytes (width : Nat) : Nat := if width = 16 then 2 else if width = 32 then 4 else 8

def wordBytes (count bits : Nat) : Except Fault (List UInt8) :=
  if 8 < count then .error (.trapped (.slice count 8)) else .ok (bytesLE count bits)

mutual

/-- The image of a value, low bytes first and lanes in order. -/
def encode : Value → Except Fault (List UInt8)
  | .bool b => .ok [if b then 1 else 0]
  | .int bits width => wordBytes (width / 8) bits
  | .float bits width => .ok (bytesLE (floatBytes width) bits)
  | .vector lanes => encodeLanes lanes
  | .pointer ⟨.heap, offset, _⟩ => .ok (bytesLE 8 offset)
  | .pointer ⟨space, _, _⟩ => .error (.unstorable space)

/-- The images of lanes, one after another. -/
def encodeLanes : List Value → Except Fault (List UInt8)
  | [] => .ok []
  | v :: rest => do
    let bytes ← encode v
    return bytes ++ (← encodeLanes rest)

end

namespace Program

def type (p : Program) (id : Id) : Except Fault Ty :=
  match p.types[id]? with
  | some t => .ok t
  | none => .error (.notType id)

def laneType (p : Program) (id : Id) : Except Fault Ty := do
  match ← p.type id with
  | .vector element _ => p.type element
  | t => return t

def pointee (p : Program) (id : Id) : Except Fault Id := do
  match ← p.type id with
  | .pointer _ pointee => return pointee
  | t => throw (.notPointerType t)

/-- More than types nest that do not nest in themselves. -/
def depth (p : Program) : Nat := p.types.size + 3

def sizeTimes (size count : Nat) : Except Fault Nat :=
  if Nat.pow 2 64 ≤ size * count then .error (.trapped .product) else .ok (size * count)

/-- Size of a type that nests at most `fuel` deep. -/
def sizeWithin (p : Program) : Nat → Id → Except Fault Nat
  | 0, _ => .error (.trapped .recursion)
  | fuel + 1, id => do
    match ← p.type id with
    | .bool => return 1
    | .int w | .float w => return w / 8
    | .vector element lanes => sizeTimes (← p.sizeWithin fuel element) lanes
    | .array element length => sizeTimes (← p.sizeWithin fuel element) length
    | .pointer _ _ => return 8
    | t => throw (.noSize t)

/-- The bytes the image of a value of a type takes. -/
def sizeOf (p : Program) (id : Id) : Except Fault Nat := p.sizeWithin p.depth id

/-- Zero of a type that nests at most `fuel` deep. -/
def zeroWithin (p : Program) : Nat → Id → Except Fault Value
  | 0, _ => .error (.trapped .recursion)
  | fuel + 1, id => do
    match ← p.type id with
    | .bool => return .bool false
    | .int w => return .ofBits 0 w
    | .float w => return .ofDouble 0 w
    | .vector element lanes => return .vector (List.replicate lanes (← p.zeroWithin fuel element))
    | .pointer _ pointee => return .pointer ⟨.heap, 0, pointee⟩
    | t => throw (.noZero t)

def zero (p : Program) (id : Id) : Except Fault Value := p.zeroWithin p.depth id

/-- The value of a type that has the given bits. -/
def ofBits (p : Program) (bits : Nat) (id : Id) : Except Fault Value := do
  match ← p.type id with
  | .bool => return .bool (bits != 0)
  | .int w => return .ofBits bits w
  | .float 16 => return .float (bits % Nat.pow 2 16) 16
  | .float 32 => return .float (bits % Nat.pow 2 32) 32
  | .float w => return .float bits w
  | .pointer _ pointee => return .pointer ⟨.heap, bits, pointee⟩
  | t => throw (.notScalar t)

/-- Decode values of one type from consecutive runs of bytes. -/
def decodeLanes (decode : List UInt8 → Except Fault Value) (size : Nat) :
    Nat → List UInt8 → Except Fault (List Value)
  | 0, _ => .ok []
  | n + 1, bytes =>
    if bytes.length < size then .error (.trapped (.slice size bytes.length))
    else do
      let v ← decode (bytes.take size)
      return v :: (← decodeLanes decode size n (bytes.drop size))

/-- Decode a value of a type that nests at most `fuel` deep. -/
def decodeWithin (p : Program) : Nat → List UInt8 → Id → Except Fault Value
  | 0, _, _ => .error (.trapped .recursion)
  | fuel + 1, bytes, id => do
    let size ← p.sizeOf id
    if bytes.length < size then throw (.decoding size bytes.length)
    match ← p.type id with
    | .vector element lanes =>
      let laneSize ← p.sizeOf element
      let values ← decodeLanes (fun bytes => p.decodeWithin fuel bytes element) laneSize lanes bytes
      return .vector values
    | _ =>
      if 8 < size then throw (.trapped (.slice size 8))
      p.ofBits (natLE (bytes.take size)) id

/-- The value of a type whose image the bytes start with. -/
def decode (p : Program) (bytes : List UInt8) (id : Id) : Except Fault Value :=
  p.decodeWithin p.depth bytes id

/-! ## Building -/

def addType (p : Program) (id : Id) (t : Ty) : Program := { p with types := p.types.insert id t }

def addConstant (p : Program) (id : Id) (v : Value) : Program :=
  { p with constants := p.constants.insert id v }

def constantLane (p : Program) (id : Id) : Except Fault Value :=
  match p.constants[id]? with
  | some v => .ok v
  | none => .error (.compositeLane id)

/-- Evaluate a declaration; `builtIns` are the provided values by variable. -/
def declare (builtIns : List (Id × BuiltIn)) (p : Program) (i : Instruction) :
    Except Fault Program := do
  let id ← resultOf i
  match i.opcode with
  | .typeVoid => return p.addType id .void
  | .typeBool => return p.addType id .bool
  | .typeInt => return p.addType id (.int (← literalAt i 0))
  | .typeFloat => return p.addType id (.float (← literalAt i 0))
  | .typeVector => return p.addType id (.vector (← idAt i 0) (← literalAt i 1))
  | .typeArray =>
    match p.constants[← idAt i 1]? with
    | none => throw .arrayLength
    | some v =>
      let length ← v.asWord
      return p.addType id (.array (← idAt i 0) length)
  | .typePointer =>
    match i.operands with
    | .enumerant .storageClass storage :: _ => return p.addType id (.pointer storage (← idAt i 1))
    | _ => throw (.unsupportedDeclaration i.opcode)
  | .typeFunction => return p.addType id .function
  | .constant =>
    match i.operands with
    | .literal n :: _ | .long n :: _ => return p.addConstant id (← p.ofBits n (← resultTypeOf i))
    | _ => throw (.unsupportedDeclaration i.opcode)
  | .constantTrue => return p.addConstant id (.bool true)
  | .constantFalse => return p.addConstant id (.bool false)
  | .constantComposite =>
    let lanes ← (List.range i.operands.length).mapM fun n => do p.constantLane (← idAt i n)
    return p.addConstant id (.vector lanes)
  | .constantNull | .undef => return p.addConstant id (← p.zero (← resultTypeOf i))
  | .variableDecl =>
    match i.operands with
    | .enumerant .storageClass storage :: _ =>
      let pointee ← p.pointee (← resultTypeOf i)
      let global : Global := ⟨storage, pointee, (builtIns.find? fun e => e.1 == id).map Prod.snd⟩
      return { p with globals := p.globals.insert id global }
    | _ => throw (.unsupportedDeclaration i.opcode)
  | op => throw (.unsupportedDeclaration op)

end Program

/-- Instructions the device carries out in a function. -/
def isExecutable : Opcode → Bool
  | .nop | .phi | .loopMerge | .selectionMerge | .branch | .branchConditional | .switch
  | .returnVoid | .returnValue | .unreachable | .variableDecl | .load | .store | .accessChain
  | .inBoundsAccessChain | .ptrAccessChain | .inBoundsPtrAccessChain | .convertUToPtr | .bitcast
  | .copyObject | .undef | .select | .compositeExtract | .compositeInsert | .functionCall
  | .extInst | .controlBarrier | .memoryBarrier | .iAdd | .iSub | .iMul | .sDiv | .sRem | .sMod
  | .uDiv | .uMod | .fAdd | .fSub | .fMul | .fDiv | .fRem | .bitwiseAnd | .bitwiseOr
  | .bitwiseXor | .shiftLeftLogical | .shiftRightLogical | .shiftRightArithmetic | .not
  | .sNegate | .fNegate | .logicalAnd | .logicalOr | .logicalEqual | .logicalNotEqual
  | .logicalNot | .iEqual | .iNotEqual | .uLessThan | .uLessThanEqual | .uGreaterThan
  | .uGreaterThanEqual | .sLessThan | .sLessThanEqual | .sGreaterThan | .sGreaterThanEqual
  | .fOrdEqual | .fOrdNotEqual | .fOrdLessThan | .fOrdLessThanEqual | .fOrdGreaterThan
  | .fOrdGreaterThanEqual | .fUnordEqual | .fUnordNotEqual | .sConvert | .uConvert | .fConvert
  | .convertSToF | .convertUToF | .convertFToS | .convertFToU => true
  | _ => false

namespace Program

def blockOf (b : Spirv.Block) : Except Fault Block := do
  let label ← resultOf b.label
  match b.body.find? fun i => !isExecutable i.opcode with
  | some i => throw (.unsupportedInstruction i.opcode)
  | none => return ⟨label, b.body⟩

def define (p : Program) (f : Spirv.Function) : Except Fault Program := do
  let id ← resultOf f.definition
  let params ← f.params.mapM fun i => do return (← resultOf i, ← resultTypeOf i)
  let blocks ← f.blocks.mapM blockOf
  return { p with functions := p.functions.insert id ⟨params, blocks⟩ }

/-- The variable and the provided value of a decoration. -/
def builtInOf (i : Instruction) : Option (Id × BuiltIn) :=
  match i.operands with
  | .ref target :: .enumerant .decoration 11 :: .enumerant .builtIn b :: _ => some (target, b)
  | _ => none

/-- The name and function of an entry point. -/
def entryOf (i : Instruction) : Option (String × Id) :=
  match i.operands with
  | .enumerant .executionModel _ :: .ref function :: .text name :: _ => some (name, function)
  | _ => none

/-- The program of a module. Of two entry points with one name, and of two
decorations of one variable, the later counts. -/
def ofModule (m : Module) : Except Fault Program := do
  let builtIns := (m.annotations.filterMap builtInOf).reverse
  let start : Program := { mathImport := (Spirv.Module.mathImports m).getLast? }
  let p ← m.globals.foldlM (declare builtIns) start
  m.functions.foldlM define { p with entries := m.entryPoints.filterMap entryOf }

def entry? (p : Program) (name : String) : Option Id :=
  (p.entries.reverse.find? fun e => e.1 == name).map Prod.snd

/-- Names of the entry points, each once, in order. -/
def entryNames (p : Program) : List String :=
  ((p.entries.map Prod.fst).eraseDups).mergeSort fun a b => decide (a ≤ b)

def function (p : Program) (id : Id) : Except Fault Function :=
  match p.functions[id]? with
  | some f => .ok f
  | none => .error (.undefinedFunction id)

end Program

/-- Why words are no program. -/
inductive BuildFault where
  | load (fault : LoadFault)
  | program (fault : Fault)
  | noEntry (name : String) (available : List String)
deriving Repr, Inhabited

/-- What a build log says. -/
def BuildFault.message : BuildFault → String
  | .load f => s!"invalid module: {f.name}"
  | .program f => s!"device execution fault: {f.message}"
  | .noEntry name available =>
    "entry point `" ++ name ++ "` not found (module exports: " ++ ", ".intercalate available ++ ")"

/-- The program of words. -/
def Program.ofWords (words : List UInt32) : Except BuildFault Program :=
  match Spirv.load words with
  | .error f => .error (.load f)
  | .ok m =>
    match Program.ofModule m with
    | .error f => .error (.program f)
    | .ok p => .ok p

end KernelForge.Device
