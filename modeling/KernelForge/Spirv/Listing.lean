import KernelForge.Binary.Shortest
import KernelForge.Spirv.Loader
import KernelForge.Text.Quoted

/-!
# Modules as text

A listing has four lines of header and one line for each instruction.
-/

namespace KernelForge.Spirv

open Text (natText intText quoted)

def idText (id : Id) : String := "%" ++ natText id

def Operand.listing : Operand → String
  | .ref id => idText id
  | .literal n | .long n | .extInst n => natText n
  | .text s => quoted s
  | .enumerant f n => f.text n

/-- The number of the given bits read as a signed number. -/
def signedOf (bits n : Nat) : Int :=
  if n < Nat.pow 2 (bits - 1) then n else (n : Int) - Nat.pow 2 bits

def constantText : Option NumberType → Operand → String
  | some (.int _ true), .literal n => intText (signedOf 32 n)
  | some (.int _ true), .long n => intText (signedOf 64 n)
  | some (.float _), .literal n => Binary.Format.single.plainText n
  | some (.float _), .long n => Binary.Format.double.plainText n
  | _, operand => operand.listing

/-- Written forms of the operands of an instruction. -/
def operandTexts (types : NumberTypes) (mathImports : List Id) (i : Instruction) : List String :=
  match i.opcode, i.operands with
  | .constant, [n] => [constantText (i.resultType.bind types.get?) n]
  | .extInst, .ref set :: .extInst n :: args =>
    let name := if set ∈ mathImports then (mathName? n).getD (natText n) else natText n
    idText set :: name :: args.map Operand.listing
  | _, operands => operands.map Operand.listing

def Instruction.listing (types : NumberTypes) (mathImports : List Id) (i : Instruction) : String :=
  let operands := operandTexts types mathImports i
  let result := match i.result with
    | some id => idText id ++ " = "
    | none => ""
  let type := match i.resultType with
    | some id => "  " ++ idText id ++ (if operands.isEmpty then "" else " ")
    | none => ""
  let tail := if operands.isEmpty then "" else " " ++ " ".intercalate operands
  result ++ "Op" ++ i.opcode.mnemonic ++ type ++ tail

def Module.listing (m : Module) : String :=
  let types := m.globals.foldl NumberTypes.track ∅
  let header :=
    ["; SPIR-V", "; Version: " ++ natText m.version.major ++ "." ++ natText m.version.minor,
     "; Generator: rspirv", "; Bound: " ++ natText m.bound]
  "\n".intercalate (header ++ m.instructions.map (Instruction.listing types m.mathImports))

end KernelForge.Spirv
