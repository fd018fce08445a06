import KernelForge.Device.Value
import KernelForge.Spirv.Loader
import KernelForge.Text.Quoted

/-!
# What can go wrong on the device

Faults by cause: in the shape of a program, in the values an instruction meets, in control flow,
in memory, and in what a host asks of the device. The wording of each is in `Fault.message`. A trap
is an operation of the device itself that has no result; the device stops.
-/

namespace KernelForge.Device

open Spirv (Id Opcode MathOp Operand Family StorageClass BuiltIn LoadFault)
open Text (natText addressText quoted)

/-- What an instruction expects of a value. -/
inductive Expected where
  | bool | integer | float | pointer
deriving DecidableEq, Repr, Inhabited

/-- Operand shapes with a name in messages. -/
inductive Shape where
  | aFloat | twoFloats | anInteger | twoIntegers
deriving DecidableEq, Repr, Inhabited

/-- Operations that have no result. -/
inductive Trap where
  | remainder
  /-- A shift by as many bits as a word has, or by more. -/
  | shift (amount : Nat)
  /-- A part of some bytes that ends after them. -/
  | slice (stop length : Nat)
  /-- A difference below zero. -/
  | difference
  /-- A sum that is no 64-bit word. -/
  | sum
  /-- A product that is no 64-bit word. -/
  | product
  /-- More bytes in one piece than addresses can tell apart. -/
  | extent
  /-- A search without end through a type that nests in itself. -/
  | recursion
deriving DecidableEq, Repr, Inhabited

inductive Fault where
  -- the shape of a program
  | partialModule (length : Nat)
  | malformedModule (fault : LoadFault)
  | operandMismatch (op : Opcode) (index : Nat) (found : Option Operand) (expectsId : Bool)
  | noResult (op : Opcode)
  | noResultType (op : Opcode)
  | arrayLength
  | compositeLane (lane : Id)
  | unsupportedDeclaration (op : Opcode)
  | unsupportedInstruction (op : Opcode)
  | notType (id : Id)
  | notPointerType (type : Ty)
  | noSize (type : Ty)
  | noZero (type : Ty)
  | notScalar (type : Ty)
  -- values
  | expected (what : Expected) (found : Value)
  | unstorable (space : Space)
  | laneCount
  | cannotProduce (op : Opcode) (type : Ty)
  | unaryOn (op : Opcode) (value : Value)
  | binaryOn (op : Opcode) (lhs rhs : Value)
  | onBools (op : Opcode)
  | onIntegers (op : Opcode)
  | onFloats (op : Opcode)
  | operandCount (op : Opcode) (count : Nat)
  | dividesByZero (op : Opcode)
  | overflows (op : Opcode) (width : Nat)
  | mathOn (op : MathOp) (shape : Shape)
  | mathOnValues (op : MathOp) (values : List Value)
  | bitcastSizes
  | extractLane (lane : Nat) (value : Value)
  | insertLane (lane : Nat) (value : Value)
  | switchOn (value : Value)
  | indexInto (type : Ty)
  | decoding (size available : Nat)
  | unknownSet
  | unsupportedMath (number : Nat)
  | undefinedId (id : Id)
  | globalStorage (id : Id) (storage : StorageClass)
  | unsupportedBuiltIn (builtIn : BuiltIn)
  -- control flow
  | undefinedFunction (id : Id)
  | kernelParams (count : Nat)
  | argumentCount (function : Id) (expects got : Nat)
  | callDepth
  | noBlock (function : Id) (index : Nat)
  | phiInEntry
  | phiMissing (phi block : Id)
  | phiNotFirst
  | stepLimit (limit : Nat)
  | unknownBlock (label : Id)
  | noTerminator (label : Id)
  | unreachable
  -- memory
  | outOfBounds (length offset : Nat)
  | danglingVariable
  | missingVariable (owner : Id)
  | rawRead (builtIn : BuiltIn)
  | storeTo (builtIn : BuiltIn)
  | outOfMemory (size used capacity : Nat)
  | outsideMemory (length address : Nat)
  -- what a host asks for
  | unevenRange (global localSize dimension : Nat)
  | groupTooLarge (size maximum : Nat)
  | unknownList (list : Nat)
  | overrun (length offset size : Nat)
  | unfinishedRead (event : Nat)
  | frameBelowHeap (address heapBase : Nat)
  -- the device itself
  | trapped (trap : Trap)
deriving Repr, Inhabited

/-- A number that has to be a 64-bit word. -/
def wordOr (trap : Trap) (n : Nat) : Except Fault Nat :=
  if n < Nat.pow 2 64 then .ok n else .error (.trapped trap)

def Expected.text : Expected → String
  | .bool => "a bool"
  | .integer => "an integer"
  | .float => "a float"
  | .pointer => "a pointer"

def Shape.text : Shape → String
  | .aFloat => "a float"
  | .twoFloats => "two floats"
  | .anInteger => "an integer"
  | .twoIntegers => "two integers"

def Trap.text : Trap → String
  | .remainder => "a remainder by zero"
  | .shift amount => s!"a shift by {amount}"
  | .slice stop length => s!"bytes up to {stop} of {length}"
  | .difference => "a difference below zero"
  | .sum => "a sum beyond 64 bits"
  | .product => "a product beyond 64 bits"
  | .extent => "more bytes than memory can have"
  | .recursion => "a type that nests in itself"

def foundText : Option Operand → String
  | none => "None"
  | some (.ref id) => s!"Some(IdRef({id}))"
  | some (.literal n) => s!"Some(LiteralBit32({n}))"
  | some (.long n) => s!"Some(LiteralBit64({n}))"
  | some (.text s) => s!"Some(LiteralString({quoted s}))"
  | some (.extInst n) => s!"Some(LiteralExtInstInteger({n}))"
  | some (.enumerant f n) => s!"Some({f.name}({f.text n}))"

def opText (op : Opcode) : String := "Op" ++ op.mnemonic

def Fault.message : Fault → String
  | .partialModule n => s!"module length {n} is not a whole number of words"
  | .malformedModule f => s!"malformed module: {f.name}"
  | .operandMismatch op i found expectsId =>
    opText op ++ " operand " ++ natText i ++ " is " ++ foundText found ++ ", expected "
      ++ (if expectsId then "an id" else "a literal")
  | .noResult op => s!"{opText op} has no result id"
  | .noResultType op => s!"{opText op} has no result type"
  | .arrayLength => "array length is not a constant"
  | .compositeLane id => s!"composite lane %{id} is not a constant"
  | .unsupportedDeclaration op => s!"unsupported module-scope instruction {opText op}"
  | .unsupportedInstruction op => s!"unsupported instruction {opText op}"
  | .notType id => s!"%{id} is not a type"
  | .notPointerType t => s!"{t.text} is not a pointer type"
  | .noSize t => s!"{t.text} has no size"
  | .noZero t => s!"no zero value for {t.text}"
  | .notScalar t => s!"{t.text} is not a scalar"
  | .expected what found => s!"expected {what.text}, found {found.text}"
  | .unstorable s => s!"a {s.text} pointer cannot be stored"
  | .laneCount => "vector operands differ in length"
  | .cannotProduce op t => s!"{opText op} cannot produce {t.text}"
  | .unaryOn op v => s!"{opText op} applied to {v.text}"
  | .binaryOn op a b => s!"{opText op} applied to {a.text} and {b.text}"
  | .onBools op => s!"{opText op} applied to bools"
  | .onIntegers op => s!"{opText op} applied to integers"
  | .onFloats op => s!"{opText op} applied to floats"
  | .operandCount op n => s!"{opText op} with {n} operands"
  | .dividesByZero op => s!"{opText op} divides by zero"
  | .overflows op w => s!"{opText op} overflows {natText w}-bit signed range"
  | .mathOn op s => s!"{op.name} applied to {s.text}"
  | .mathOnValues op vs => s!"{op.name} applied to {Value.listText vs}"
  | .bitcastSizes => "bitcast between types of different sizes"
  | .extractLane n v => s!"cannot extract lane {n} of {v.text}"
  | .insertLane n v => s!"cannot insert lane {n} into {v.text}"
  | .switchOn v => s!"switch on {v.text}"
  | .indexInto t => s!"cannot index into {t.text}"
  | .decoding size available => s!"decoding {size} bytes from {available}"
  | .unknownSet => "extended instruction from an unknown set"
  | .unsupportedMath n => s!"unsupported OpenCL.std instruction {n}"
  | .undefinedId id => s!"%{id} is not defined"
  | .globalStorage id s => s!"global %{id} in {Family.storageClass.text s} storage"
  | .unsupportedBuiltIn b => s!"unsupported builtin {Family.builtIn.text b}"
  | .undefinedFunction id => s!"call of undefined function %{id}"
  | .kernelParams n => s!"kernel takes {n} parameters, expected heap and frame"
  | .argumentCount f expects got => s!"%{f} takes {expects} arguments, got {got}"
  | .callDepth => "call depth limit exceeded"
  | .noBlock f i => s!"%{f} has no block {i}"
  | .phiInEntry => "phi in the entry block"
  | .phiMissing phi block => s!"phi %{phi} has no value for block %{block}"
  | .phiNotFirst => "phi after the head of its block"
  | .stepLimit n => s!"kernel exceeded {n} steps"
  | .unknownBlock l => s!"branch to unknown block %{l}"
  | .noTerminator l => s!"block %{l} has no terminator"
  | .unreachable => "reached OpUnreachable"
  | .outOfBounds len offset => s!"access of {len} bytes at offset {offset} is out of bounds"
  | .danglingVariable => "dangling function variable"
  | .missingVariable v => s!"workgroup variable %{v} missing"
  | .rawRead b => s!"{Family.builtIn.text b} read through a raw pointer"
  | .storeTo b => s!"store to {Family.builtIn.text b}"
  | .outOfMemory size used capacity =>
    s!"out of device memory allocating {size} bytes ({used} of {capacity} in use)"
  | .outsideMemory len address =>
    s!"access of {len} bytes at {addressText address} is outside device memory"
  | .unevenRange global localSize d =>
    s!"global size {global} is not a multiple of local size {localSize} in dimension {d}"
  | .groupTooLarge size maximum => s!"workgroup of {size} exceeds the device maximum of {maximum}"
  | .unknownList n => s!"unknown command list {n}"
  | .overrun len offset size =>
    s!"transfer of {len} bytes at offset {offset} overruns a {size}-byte buffer"
  | .unfinishedRead event => s!"read for event {event} has not completed"
  | .frameBelowHeap address base =>
    s!"frame at {addressText address} lies below the heap base {addressText base}"
  | .trapped trap => s!"stopped by {trap.text}"

end KernelForge.Device
