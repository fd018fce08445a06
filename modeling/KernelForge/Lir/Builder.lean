import KernelForge.Binary.Shortest
import KernelForge.Lir.Function

/-!
# Building functions step by step

A builder hands out fresh names: values, blocks and arrays are numbered from zero in order of
creation. Operations and the terminator go to the current block.
-/

namespace KernelForge.Lir

/-- A function under construction. -/
structure Builder where
  function : Function
  /-- Number of values handed out. -/
  nextValue : UInt32
  /-- Number of blocks handed out. -/
  nextBlock : UInt32
  /-- Number of arrays handed out. -/
  nextArray : UInt32
  /-- Position of the current block. -/
  current : Nat
deriving Repr, Inhabited

/-- A block that holds nothing yet. -/
def Block.fresh (id : BlockId) : Block := ⟨id, [], .unreachable⟩

namespace Builder

/-- A function with one block. -/
def start (name : String) (role : Role) (returnKind : Kind) : Builder :=
  { function := ⟨name, role, [], returnKind, [], [], [.fresh ⟨0⟩]⟩
    nextValue := 0, nextBlock := 1, nextArray := 0, current := 0 }

def kernel (name : String) : Builder := start name .kernel .void

def device (name : String) (returnKind : Kind) : Builder := start name .device returnKind

def param (b : Builder) (kind : Kind) (name : Option String) : ValueId × Builder :=
  let v : ValueId := ⟨b.nextValue⟩
  (v, { b with
    function := { b.function with params := b.function.params ++ [⟨v, kind, name⟩] }
    nextValue := b.nextValue + 1 })

/-- Declare a value without defining it. -/
def var (b : Builder) (kind : Kind) : ValueId × Builder :=
  let v : ValueId := ⟨b.nextValue⟩
  (v, { b with
    function := { b.function with locals := b.function.locals ++ [⟨v, kind⟩] }
    nextValue := b.nextValue + 1 })

def array (b : Builder) (region : Region) (element : Kind) (length : UInt32) : ArrayId × Builder :=
  let a : ArrayId := ⟨b.nextArray⟩
  (a, { b with
    function := { b.function with arrays := b.function.arrays ++ [⟨a, region, element, length⟩] }
    nextArray := b.nextArray + 1 })

/-- Append an empty block; the current block stays. -/
def block (b : Builder) : BlockId × Builder :=
  let id : BlockId := ⟨b.nextBlock⟩
  (id, { b with
    function := { b.function with blocks := b.function.blocks ++ [.fresh id] }
    nextBlock := b.nextBlock + 1 })

/-- Make a block current; an unknown one changes nothing. -/
def switchTo (b : Builder) (id : BlockId) : Builder :=
  match b.function.blocks.findIdx? fun k => k.id == id with
  | some i => { b with current := i }
  | none => b

def currentBlock (b : Builder) : BlockId :=
  ((b.function.blocks[b.current]?).map Block.id).getD ⟨0⟩

def modifyCurrent (b : Builder) (change : Block → Block) : Builder :=
  { b with function := { b.function with blocks := b.function.blocks.modify b.current change } }

/-- Append an operation to the current block. -/
def push (b : Builder) (op : Op) : Builder :=
  b.modifyCurrent fun k => { k with ops := k.ops ++ [op] }

/-- Set the terminator of the current block. -/
def terminate (b : Builder) (t : Terminator) : Builder :=
  b.modifyCurrent fun k => { k with terminator := t }

/-- Append an operation that defines a new value of a kind. -/
def define (b : Builder) (kind : Kind) (op : ValueId → Op) : ValueId × Builder :=
  let (v, b) := b.var kind
  (v, b.push (op v))

def binary (b : Builder) (op : BinaryOp) (kind : Kind) (lhs rhs : Operand) : ValueId × Builder :=
  b.define kind fun v => .binary v op lhs rhs

def convert (b : Builder) (op : ConvertOp) (kind : Kind) (src : Operand) : ValueId × Builder :=
  b.define kind fun v => .convert v op src

def move (b : Builder) (kind : Kind) (src : Operand) : ValueId × Builder :=
  b.define kind fun v => .move v src

def load (b : Builder) (kind : Kind) (address : Address) : ValueId × Builder :=
  b.define kind fun v => .load v address

/-- A thread query, always a 64-bit integer. -/
def threadId (b : Builder) (query : ThreadQuery) (dimension : UInt32) : ValueId × Builder :=
  b.define .i64 fun v => .threadId v query dimension

def call (b : Builder) (callee : String) (kind : Kind) (args : List Operand) : ValueId × Builder :=
  b.define kind fun v => .call (some v) callee args

end Builder

namespace Operand

/-- A 32-bit integer literal. -/
def int (n : Int64) : Operand := .const ⟨Text.intText n.toInt, .i32⟩

/-- A 64-bit integer literal. -/
def long (n : Int64) : Operand := .const ⟨Text.intText n.toInt, .i64⟩

/-- A 32-bit floating-point literal, given by its bit pattern. -/
def float (bits : UInt32) : Operand :=
  .const ⟨Binary.Format.single.generalText bits.toNat, .f32⟩

def var? : Operand → Option ValueId
  | .var v => some v
  | .const _ => none

/-- Written form: the name of a value, or a literal with its kind. -/
def text : Operand → String
  | .var v => v.text
  | .const l => l.value ++ ":" ++ l.kind.text

end Operand

end KernelForge.Lir
