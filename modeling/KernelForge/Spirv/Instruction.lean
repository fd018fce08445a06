import KernelForge.Spirv.Enumerant
import KernelForge.Spirv.Opcode

/-!
# Instructions and their words

An instruction has an opcode, possibly a result type and a result id, and operands. In a module it
is a run of 32-bit words: the first word holds the word count in its upper half and the opcode in
its lower half.
-/

namespace KernelForge.Spirv

/-- Name of a result. -/
abbrev Id := Nat

inductive Operand where
  | ref (id : Id)
  /-- A number of one word. -/
  | literal (n : Nat)
  /-- A number of two words, low word first. -/
  | long (n : Nat)
  | text (s : String)
  /-- The number of an extended instruction. -/
  | extInst (n : Nat)
  /-- A member of a family. -/
  | enumerant (family : Family) (n : Nat)
deriving DecidableEq, Repr, Inhabited

structure Instruction where
  opcode : Opcode
  resultType : Option Id := none
  result : Option Id := none
  operands : List Operand := []
deriving DecidableEq, Repr, Inhabited

/-! ## Words -/

/-- The little-endian word of four bytes. -/
def wordOfBytes (a b c d : UInt8) : UInt32 :=
  UInt32.ofNat (a.toNat + b.toNat * Nat.pow 2 8 + c.toNat * Nat.pow 2 16 + d.toNat * Nat.pow 2 24)

/-- The four bytes of a word, low byte first. -/
def bytesOfWord (w : UInt32) : List UInt8 :=
  [w.toUInt8, (w >>> 8).toUInt8, (w >>> 16).toUInt8, (w >>> 24).toUInt8]

/-- The words of a text: its bytes, a zero byte, and zero bytes up to a whole word. -/
def textWords : List UInt8 → List UInt32
  | [] => [0]
  | [a] => [wordOfBytes a 0 0 0]
  | [a, b] => [wordOfBytes a b 0 0]
  | [a, b, c] => [wordOfBytes a b c 0]
  | a :: b :: c :: d :: rest => wordOfBytes a b c d :: textWords rest

def Operand.words : Operand → List UInt32
  | .ref n | .literal n | .extInst n | .enumerant _ n => [UInt32.ofNat n]
  | .long n => [UInt32.ofNat n, UInt32.ofNat (n / Nat.pow 2 32)]
  | .text s => textWords s.toUTF8.toList

/-- The words of an instruction after the first one. -/
def Instruction.payload (i : Instruction) : List UInt32 :=
  i.resultType.toList.map UInt32.ofNat ++ i.result.toList.map UInt32.ofNat
    ++ i.operands.flatMap Operand.words

def Instruction.words (i : Instruction) : List UInt32 :=
  UInt32.ofNat ((i.payload.length + 1) * Nat.pow 2 16 + i.opcode.code) :: i.payload

end KernelForge.Spirv
