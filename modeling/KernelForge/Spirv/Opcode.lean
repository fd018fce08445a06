import KernelForge.Spirv.Enumerant

/-!
# Instruction codes

The instructions of the binary format that modules here are made of, with their codes and names.
-/

namespace KernelForge.Spirv

inductive Opcode where
  | nop | undef | name | line | extInstImport | extInst | memoryModel | entryPoint
  | executionMode | capability | typeVoid | typeBool | typeInt | typeFloat | typeVector
  | typeArray | typeStruct | typePointer | typeFunction | constantTrue | constantFalse | constant
  | constantComposite | constantNull | specConstant | function | functionParameter | functionEnd
  | functionCall | variableDecl | load | store | accessChain | inBoundsAccessChain
  | ptrAccessChain | inBoundsPtrAccessChain | decorate | vectorShuffle | compositeConstruct
  | compositeExtract | compositeInsert | copyObject | transpose | convertFToU | convertFToS
  | convertSToF | convertUToF | uConvert | sConvert | fConvert | convertPtrToU | convertUToPtr
  | bitcast | sNegate | fNegate | iAdd | fAdd | iSub | fSub | iMul | fMul | uDiv | sDiv | fDiv
  | uMod | sRem | sMod | fRem | fMod | logicalEqual | logicalNotEqual | logicalOr | logicalAnd
  | logicalNot | select | iEqual | iNotEqual | uGreaterThan | sGreaterThan | uGreaterThanEqual
  | sGreaterThanEqual | uLessThan | sLessThan | uLessThanEqual | sLessThanEqual | fOrdEqual
  | fUnordEqual | fOrdNotEqual | fUnordNotEqual | fOrdLessThan | fUnordLessThan | fOrdGreaterThan
  | fOrdLessThanEqual | fOrdGreaterThanEqual | shiftRightLogical | shiftRightArithmetic
  | shiftLeftLogical | bitwiseOr | bitwiseXor | bitwiseAnd | not | bitCount | controlBarrier
  | memoryBarrier | atomicIAdd | phi | loopMerge | selectionMerge | label | branch
  | branchConditional | switch | kill | returnVoid | returnValue | unreachable
deriving DecidableEq, Repr, Inhabited

namespace Opcode

/-- Every instruction, in order of its code. -/
def all : List Opcode := (List.range 116).map ofNat

/-- Numbers and names of the instructions in the binary format, in their order. -/
def entries : List (Nat × String) :=
  [(0, "Nop"), (1, "Undef"), (5, "Name"), (8, "Line"), (11, "ExtInstImport"), (12, "ExtInst")] ++
   numbered 14 ["MemoryModel", "EntryPoint", "ExecutionMode", "Capability"] ++ numbered 19
   ["TypeVoid", "TypeBool", "TypeInt", "TypeFloat", "TypeVector"] ++ [(28, "TypeArray"), (30,
   "TypeStruct"), (32, "TypePointer"), (33, "TypeFunction")] ++ numbered 41 ["ConstantTrue",
   "ConstantFalse", "Constant", "ConstantComposite"] ++ [(46, "ConstantNull"), (50,
   "SpecConstant")] ++ numbered 54 ["Function", "FunctionParameter", "FunctionEnd",
   "FunctionCall"] ++ [(59, "Variable"), (61, "Load"), (62, "Store")] ++ numbered 65
   ["AccessChain", "InBoundsAccessChain", "PtrAccessChain"] ++ [(70, "InBoundsPtrAccessChain"),
   (71, "Decorate")] ++ numbered 79 ["VectorShuffle", "CompositeConstruct", "CompositeExtract",
   "CompositeInsert", "CopyObject", "Transpose"] ++ numbered 109 ["ConvertFToU", "ConvertFToS",
   "ConvertSToF", "ConvertUToF", "UConvert", "SConvert", "FConvert"] ++ [(117, "ConvertPtrToU"),
   (120, "ConvertUToPtr"), (124, "Bitcast")] ++ numbered 126 ["SNegate", "FNegate", "IAdd",
   "FAdd", "ISub", "FSub", "IMul", "FMul", "UDiv", "SDiv", "FDiv", "UMod", "SRem", "SMod", "FRem",
   "FMod"] ++ numbered 164 ["LogicalEqual", "LogicalNotEqual", "LogicalOr", "LogicalAnd",
   "LogicalNot", "Select", "IEqual", "INotEqual", "UGreaterThan", "SGreaterThan",
   "UGreaterThanEqual", "SGreaterThanEqual", "ULessThan", "SLessThan", "ULessThanEqual",
   "SLessThanEqual", "FOrdEqual", "FUnordEqual", "FOrdNotEqual", "FUnordNotEqual", "FOrdLessThan",
   "FUnordLessThan", "FOrdGreaterThan"] ++ [(188, "FOrdLessThanEqual"), (190,
   "FOrdGreaterThanEqual")] ++ numbered 194 ["ShiftRightLogical", "ShiftRightArithmetic",
   "ShiftLeftLogical", "BitwiseOr", "BitwiseXor", "BitwiseAnd", "Not"] ++ [(205, "BitCount"),
   (224, "ControlBarrier"), (225, "MemoryBarrier"), (234, "AtomicIAdd")] ++ numbered 245 ["Phi",
   "LoopMerge", "SelectionMerge", "Label", "Branch", "BranchConditional", "Switch", "Kill",
   "Return", "ReturnValue", "Unreachable"]

def entry (op : Opcode) : Nat × String := entries.getD op.ctorIdx (0, "")

def code (op : Opcode) : Nat := op.entry.1

def mnemonic (op : Opcode) : String := op.entry.2

/-- Instruction of a number. -/
def ofCode? (n : Nat) : Option Opcode :=
  all.find? fun op => op.code == n

end Opcode

end KernelForge.Spirv
