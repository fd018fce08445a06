import KernelForge.Spirv.Instruction

/-!
# Operands of each instruction

For each opcode the operands it takes, in order, and for each enumerated operand the further
operands its value brings with it. The loader reads words by this table alone.
-/

namespace KernelForge.Spirv

/-- Kinds of operand that stand alone. -/
inductive Atom where
  | ref | literal | text | extInst
  /-- A member of a family, without the operands it brings. -/
  | member (family : Family)
deriving DecidableEq, Repr, Inhabited

/-- Kinds of operand in an instruction. -/
inductive Part where
  | resultType | result
  | atom (a : Atom)
  /-- A member of a family and the operands it brings. -/
  | enumerant (family : Family)
  /-- A number as wide as the result type. -/
  | contextNumber
  /-- Two results. -/
  | refPair
  /-- A number as wide as the selector, and a result. -/
  | switchCase
deriving DecidableEq, Repr, Inhabited

/-- An operand of an instruction with how often it occurs. -/
inductive Slot where
  | one (part : Part)
  | optional (part : Part)
  | many (part : Part)
deriving DecidableEq, Repr, Inhabited

namespace Part

def ref : Part := .atom .ref

def literal : Part := .atom .literal

def text : Part := .atom .text

def extInst : Part := .atom .extInst

end Part

/-- Operands of an instruction with a typed result. -/
def typed (slots : List Slot) : List Slot := .one .resultType :: .one .result :: slots

/-- The operands of an instruction. -/
def Opcode.slots : Opcode → List Slot
  | .nop | .functionEnd | .kill | .returnVoid | .unreachable =>
    []
  | .undef | .constantTrue | .constantFalse | .constantNull | .functionParameter =>
    typed []
  | .name => [.one .ref, .one .text]
  | .line => [.one .ref, .one .literal, .one .literal]
  | .extInstImport => [.one .result, .one .text]
  | .extInst => typed [.one .ref, .one .extInst, .many .ref]
  | .memoryModel => [.one (.enumerant .addressingModel), .one (.enumerant .memoryModel)]
  | .entryPoint => [.one (.enumerant .executionModel), .one .ref, .one .text, .many .ref]
  | .executionMode => [.one .ref, .one (.enumerant .executionMode)]
  | .capability => [.one (.enumerant .capability)]
  | .typeVoid | .typeBool | .label =>
    [.one .result]
  | .typeInt => [.one .result, .one .literal, .one .literal]
  | .typeFloat => [.one .result, .one .literal]
  | .typeVector => [.one .result, .one .ref, .one .literal]
  | .typeArray => [.one .result, .one .ref, .one .ref]
  | .typeStruct => [.one .result, .many .ref]
  | .typePointer => [.one .result, .one (.enumerant .storageClass), .one .ref]
  | .typeFunction => [.one .result, .one .ref, .many .ref]
  | .constant | .specConstant =>
    typed [.one .contextNumber]
  | .constantComposite | .compositeConstruct =>
    typed [.many .ref]
  | .function => typed [.one (.enumerant .functionControl), .one .ref]
  | .functionCall | .accessChain | .inBoundsAccessChain =>
    typed [.one .ref, .many .ref]
  | .variableDecl => typed [.one (.enumerant .storageClass), .optional .ref]
  | .load => typed [.one .ref, .optional (.enumerant .memoryAccess)]
  | .store => [.one .ref, .one .ref, .optional (.enumerant .memoryAccess)]
  | .ptrAccessChain | .inBoundsPtrAccessChain =>
    typed [.one .ref, .one .ref, .many .ref]
  | .decorate => [.one .ref, .one (.enumerant .decoration)]
  | .vectorShuffle | .compositeInsert =>
    typed [.one .ref, .one .ref, .many .literal]
  | .compositeExtract => typed [.one .ref, .many .literal]
  | .copyObject | .transpose | .convertFToU | .convertFToS | .convertSToF | .convertUToF |
  .uConvert | .sConvert | .fConvert | .convertPtrToU | .convertUToPtr | .bitcast | .sNegate |
  .fNegate | .logicalNot | .not | .bitCount =>
    typed [.one .ref]
  | .iAdd | .fAdd | .iSub | .fSub | .iMul | .fMul | .uDiv | .sDiv | .fDiv | .uMod | .sRem | .sMod
  | .fRem | .fMod | .logicalEqual | .logicalNotEqual | .logicalOr | .logicalAnd | .iEqual |
  .iNotEqual | .uGreaterThan | .sGreaterThan | .uGreaterThanEqual | .sGreaterThanEqual |
  .uLessThan | .sLessThan | .uLessThanEqual | .sLessThanEqual | .fOrdEqual | .fUnordEqual |
  .fOrdNotEqual | .fUnordNotEqual | .fOrdLessThan | .fUnordLessThan | .fOrdGreaterThan |
  .fOrdLessThanEqual | .fOrdGreaterThanEqual | .shiftRightLogical | .shiftRightArithmetic |
  .shiftLeftLogical | .bitwiseOr | .bitwiseXor | .bitwiseAnd =>
    typed [.one .ref, .one .ref]
  | .select => typed [.one .ref, .one .ref, .one .ref]
  | .controlBarrier => [.one .ref, .one .ref, .one .ref]
  | .memoryBarrier => [.one .ref, .one .ref]
  | .atomicIAdd => typed [.one .ref, .one .ref, .one .ref, .one .ref]
  | .phi => typed [.many .refPair]
  | .loopMerge => [.one .ref, .one .ref, .one (.enumerant .loopControl)]
  | .selectionMerge => [.one .ref, .one (.enumerant .selectionControl)]
  | .branch | .returnValue =>
    [.one .ref]
  | .branchConditional => [.one .ref, .one .ref, .one .ref, .many .literal]
  | .switch => [.one .ref, .one .ref, .many .switchCase]

/-! ## Operands brought by enumerated operands -/

/-- Operands a decoration brings. -/
def decorationAtoms : Nat → List Atom
  | 1 | 6 | 7 | 29 | 30 | 31 | 32 | 33 | 34 | 35 | 36 | 37 | 43 | 44 | 45 => [.literal]
  | 11 => [.member .builtIn]
  | 27 | 46 | 47 => [.ref]
  | 38 => [.member .paramAttribute]
  | 39 => [.member .roundingMode]
  | 40 => [.member .fastMath]
  | 41 => [.text, .member .linkageType]
  | _ => []

def executionModeAtoms : Nat → List Atom
  | 0 | 26 | 30 | 35 | 36 => [.literal]
  | 17 | 18 => [.literal, .literal, .literal]
  | 37 => [.ref]
  | 38 | 39 => [.ref, .ref, .ref]
  | _ => []

/-- Operands the bits of a memory access bring. -/
def memoryAccessAtoms : List (Nat × Atom) :=
  [(2, .literal), (8, .ref), (16, .ref), (65536, .ref), (131072, .ref)]

/-- Operands the bits of a loop control bring. -/
def loopControlAtoms : List (Nat × Atom) :=
  [(8, .literal), (16, .literal), (32, .literal), (64, .literal), (128, .literal), (256, .literal)]

/-- Operands of the bits that are set. -/
def bitAtoms (table : List (Nat × Atom)) (n : Nat) : List Atom :=
  (table.filter fun e => n &&& e.1 != 0).map Prod.snd

/-- Operands a member of a family brings. -/
def Family.atoms : Family → Nat → List Atom
  | .decoration => decorationAtoms
  | .executionMode => executionModeAtoms
  | .memoryAccess => bitAtoms memoryAccessAtoms
  | .loopControl => bitAtoms loopControlAtoms
  | _ => fun _ => []

end KernelForge.Spirv
