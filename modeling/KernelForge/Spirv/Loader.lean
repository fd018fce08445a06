import KernelForge.Spirv.Draft
import KernelForge.Spirv.Grammar
import KernelForge.Table

/-!
# Modules from words

Reading a module: the header, then one instruction after another. The operands of an instruction
are read by the grammar within the word count that the instruction announces; then the instruction
is put in its place. The first fault ends the reading.
-/

namespace KernelForge.Spirv

/-- Why an operand cannot be read. -/
inductive OperandFault where
  | limitReached | streamExpected | decodeStringFailed
  | unknownMember (family : Family)
deriving DecidableEq, Repr, Inhabited

def OperandFault.name : OperandFault → String
  | .limitReached => "LimitReached"
  | .streamExpected => "StreamExpected"
  | .decodeStringFailed => "DecodeStringFailed"
  | .unknownMember f => s!"{f.name}Unknown"

/-- Why words are no module. -/
inductive LoadFault where
  | headerIncomplete | headerIncorrect | endiannessUnsupported
  | wordCountZero | opcodeUnknown | operandExpected | operandExceeded | typeUnsupported
  | operandError (fault : OperandFault)
  | structureError (fault : StructureFault)
deriving DecidableEq, Repr, Inhabited

def LoadFault.name : LoadFault → String
  | .headerIncomplete => "HeaderIncomplete(StreamExpected)"
  | .headerIncorrect => "HeaderIncorrect"
  | .endiannessUnsupported => "EndiannessUnsupported"
  | .wordCountZero => "WordCountZero"
  | .opcodeUnknown => "OpcodeUnknown"
  | .operandExpected => "OperandExpected"
  | .operandExceeded => "OperandExceeded"
  | .typeUnsupported => "TypeUnsupported"
  | .operandError f => s!"OperandError({f.name})"
  | .structureError f => s!"ConsumerError({f.name})"

/-- Number types a literal can have. -/
inductive NumberType where
  | int (width : Nat) (signed : Bool)
  | float (width : Nat)
deriving DecidableEq, Repr, Inhabited

abbrev NumberTypes := Table Id NumberType

/-- The words ahead and how many of them belong to the instruction. -/
structure Cursor where
  limit : Nat
  rest : List UInt32
deriving Repr, Inhabited

namespace Cursor

def word (c : Cursor) : Except LoadFault (Nat × Cursor) :=
  match c.limit, c.rest with
  | 0, _ => .error (.operandError .limitReached)
  | _ + 1, [] => .error (.operandError .streamExpected)
  | n + 1, w :: rest => .ok (w.toNat, ⟨n, rest⟩)

/-- A number of one or two words. -/
def number (c : Cursor) (wide : Bool) : Except LoadFault (Operand × Cursor) := do
  let (low, c) ← c.word
  if wide then
    let (high, c) ← c.word
    return (.long (low + high * Nat.pow 2 32), c)
  return (.literal low, c)

/-- A text: the bytes up to the first zero byte, and the rest of that byte's word. -/
def text (c : Cursor) : Except LoadFault (Operand × Cursor) :=
  if c.rest.length < c.limit then .error (.operandError .streamExpected)
  else
    let bytes := bytesOfWords (c.rest.take c.limit)
    let content := bytes.takeWhile (· != 0)
    if content.length = bytes.length then .error (.operandError .limitReached)
    else
      match String.fromUTF8? (ByteArray.mk content.toArray) with
      | none => .error (.operandError .decodeStringFailed)
      | some s =>
        let used := content.length / 4 + 1
        .ok (.text s, ⟨c.limit - used, c.rest.drop used⟩)

/-- An operand that stands alone. -/
def atom (c : Cursor) : Atom → Except LoadFault (Operand × Cursor)
  | .ref => do let (n, c) ← c.word; return (.ref n, c)
  | .literal => do let (n, c) ← c.word; return (.literal n, c)
  | .extInst => do let (n, c) ← c.word; return (.extInst n, c)
  | .text => c.text
  | .member f => do
    let (n, c) ← c.word
    if f.admits n then return (.enumerant f n, c)
    else throw (.operandError (.unknownMember f))

/-- Operands that stand alone, one after another. -/
def atoms (c : Cursor) : List Atom → Except LoadFault (List Operand × Cursor)
  | [] => .ok ([], c)
  | a :: rest => do
    let (operand, c) ← c.atom a
    let (operands, c) ← c.atoms rest
    return (operand :: operands, c)

/-- A number of the width of a type: one word up to 32 bits and where the type is not known, two
words for 64 bits. -/
def typedNumber (c : Cursor) : Option NumberType → Except LoadFault (Operand × Cursor)
  | none => c.number false
  | some (.int 8 _) | some (.int 16 _) | some (.int 32 _)
  | some (.float 16) | some (.float 32) => c.number false
  | some (.int 64 _) | some (.float 64) => c.number true
  | some _ => .error .typeUnsupported

def part (c : Cursor) (types : NumberTypes) (i : Instruction) :
    Part → Except LoadFault (Instruction × Cursor)
  | .resultType => do
    let (n, c) ← c.word
    return ({ i with resultType := some n }, c)
  | .result => do
    let (n, c) ← c.word
    return ({ i with result := some n }, c)
  | .atom a => do
    let (operand, c) ← c.atom a
    return ({ i with operands := i.operands ++ [operand] }, c)
  | .enumerant f => do
    let (operand, c) ← c.atom (.member f)
    let (brought, c) ← match operand with
      | .enumerant _ n => c.atoms (f.atoms n)
      | _ => .ok ([], c)
    return ({ i with operands := i.operands ++ operand :: brought }, c)
  | .contextNumber => do
    let (operand, c) ← c.typedNumber (i.resultType.bind types.get?)
    return ({ i with operands := i.operands ++ [operand] }, c)
  | .refPair => do
    let (operands, c) ← c.atoms [.ref, .ref]
    return ({ i with operands := i.operands ++ operands }, c)
  | .switchCase => do
    let selector := match i.operands.head? with
      | some (.ref id) => types.get? id
      | _ => none
    let (operand, c) ← c.typedNumber selector
    let (target, c) ← c.atom .ref
    return ({ i with operands := i.operands ++ [operand, target] }, c)

/-- Read a part as often as words are left. Each round reads a word, so `fuel` rounds are enough
when `fuel` is at least the limit. -/
def repeated (part : Cursor → Instruction → Except LoadFault (Instruction × Cursor)) :
    Nat → Cursor → Instruction → Except LoadFault (Instruction × Cursor)
  | 0, c, i => .ok (i, c)
  | fuel + 1, c, i =>
    if c.limit = 0 then .ok (i, c)
    else do
      let (i, c) ← part c i
      repeated part fuel c i

def operands (types : NumberTypes) :
    List Slot → Cursor → Instruction → Except LoadFault (Instruction × Cursor)
  | [], c, i => .ok (i, c)
  | .one p :: slots, c, i => do
    if c.limit = 0 then throw .operandExpected
    let (i, c) ← c.part types i p
    operands types slots c i
  | .optional p :: slots, c, i => do
    if c.limit = 0 then return (i, c)
    let (i, c) ← c.part types i p
    operands types slots c i
  | .many p :: slots, c, i => do
    let (i, c) ← repeated (fun c i => c.part types i p) c.limit c i
    operands types slots c i

end Cursor

/-- Number types after an instruction: declared number types, and results of a known type. -/
def NumberTypes.track (types : NumberTypes) (i : Instruction) : NumberTypes :=
  match i.result, i.opcode, i.operands with
  | some id, .typeInt, [.literal width, .literal sign] => types.insert id (.int width (sign == 1))
  | some id, .typeFloat, [.literal width] => types.insert id (.float width)
  | some id, _, _ =>
    match i.resultType.bind types.get? with
    | some t => types.insert id t
    | none => types
  | none, _, _ => types

def readInstruction (types : NumberTypes) (first : UInt32) (rest : List UInt32) :
    Except LoadFault (Instruction × List UInt32) := do
  let count := first.toNat / Nat.pow 2 16
  if count = 0 then throw .wordCountZero
  match Opcode.ofCode? (first.toNat % Nat.pow 2 16) with
  | none => throw .opcodeUnknown
  | some op =>
    let (i, c) ← Cursor.operands types op.slots ⟨count - 1, rest⟩ ⟨op, none, none, []⟩
    if c.limit ≠ 0 then throw .operandExceeded
    return (i, c.rest)

/-- Read the instructions of a module. Each one takes a word, so `fuel` steps are enough when
`fuel` is at least the number of words. -/
def readInstructions : Nat → NumberTypes → Draft → List UInt32 → Except LoadFault Draft
  | 0, _, d, _ => .ok d
  | _ + 1, _, d, [] => .ok d
  | fuel + 1, types, d, first :: rest => do
    let (i, rest) ← readInstruction types first rest
    match d.place i with
    | .error fault => throw (.structureError fault)
    | .ok d => readInstructions fuel (types.track i) d rest

/-- The word with its bytes in the opposite order. -/
def swapBytes (w : UInt32) : UInt32 :=
  match bytesOfWord w with
  | [a, b, c, d] => wordOfBytes d c b a
  | _ => w

def load : List UInt32 → Except LoadFault Module
  | first :: version :: _ :: bound :: _ :: rest => do
    if swapBytes first = UInt32.ofNat magic then throw .endiannessUnsupported
    if first ≠ UInt32.ofNat magic then throw .headerIncorrect
    let start : Draft := { module := { version := .ofWord version.toNat, bound := bound.toNat } }
    let d ← readInstructions rest.length ∅ start rest
    if d.block.isSome then throw (.structureError .unclosedBlock)
    if d.function.isSome then throw (.structureError .unclosedFunction)
    return d.module
  | _ => .error .headerIncomplete

end KernelForge.Spirv
