import KernelForge.Spirv.Instruction
import KernelForge.Spirv.MathSet

/-!
# Modules

A module is a header and its instructions in sections. Its words are the header and the sections
in their fixed order.
-/

namespace KernelForge.Spirv

/-- A block: its label and its instructions, the last of which ends it. -/
structure Block where
  label : Instruction
  body : List Instruction
deriving DecidableEq, Repr, Inhabited

/-- A function: its definition, parameters and blocks. -/
structure Function where
  definition : Instruction
  params : List Instruction
  blocks : List Block
deriving DecidableEq, Repr, Inhabited

structure Version where
  major : Nat
  minor : Nat
deriving DecidableEq, Repr, Inhabited

structure Module where
  version : Version := ⟨1, 6⟩
  /-- One more than the largest id. -/
  bound : Nat := 0
  capabilities : List Instruction := []
  imports : List Instruction := []
  memoryModel : Option Instruction := none
  entryPoints : List Instruction := []
  executionModes : List Instruction := []
  names : List Instruction := []
  annotations : List Instruction := []
  /-- Types, constants and module variables. -/
  globals : List Instruction := []
  functions : List Function := []
deriving DecidableEq, Repr, Inhabited

/-- First word of a module. -/
def magic : Nat := 0x07230203

/-- Third word of a module: the tool that wrote it. -/
def generator : Nat := 0x000f0000

def Version.word (v : Version) : Nat := v.major * Nat.pow 2 16 + v.minor * Nat.pow 2 8

def Version.ofWord (w : Nat) : Version :=
  ⟨w / Nat.pow 2 16 % Nat.pow 2 8, w / Nat.pow 2 8 % Nat.pow 2 8⟩

def Block.instructions (b : Block) : List Instruction := b.label :: b.body

def Function.instructions (f : Function) : List Instruction :=
  f.definition :: f.params ++ f.blocks.flatMap Block.instructions ++
    [⟨.functionEnd, none, none, []⟩]

namespace Module

/-- The instructions of a module, in section order. -/
def instructions (m : Module) : List Instruction :=
  m.capabilities ++ m.imports ++ m.memoryModel.toList ++ m.entryPoints ++ m.executionModes
    ++ m.names ++ m.annotations ++ m.globals ++ m.functions.flatMap Function.instructions

/-- Ids under which the extended set is imported. -/
def mathImports (m : Module) : List Id :=
  (m.imports.filter fun i => i.operands.head? == some (.text mathSetName)).filterMap
    Instruction.result

/-- The first five words of a module. -/
def header (m : Module) : List UInt32 :=
  [UInt32.ofNat magic, UInt32.ofNat m.version.word, UInt32.ofNat generator, UInt32.ofNat m.bound, 0]

def words (m : Module) : List UInt32 :=
  m.header ++ m.instructions.flatMap Instruction.words

end Module

/-! ## Bytes -/

def bytesOfWords (words : List UInt32) : List UInt8 := words.flatMap bytesOfWord

/-- The words of bytes; none if the bytes are no whole number of words. -/
def wordsOfBytes? : List UInt8 → Option (List UInt32)
  | [] => some []
  | a :: b :: c :: d :: rest => (wordsOfBytes? rest).map (wordOfBytes a b c d :: ·)
  | _ => none

end KernelForge.Spirv
