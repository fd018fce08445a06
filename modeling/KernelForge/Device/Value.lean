import KernelForge.Binary.Bits
import KernelForge.Binary.Shortest
import KernelForge.Spirv.Instruction

/-!
# Types and values of a running program

Values carry their own width: an integer its bits, a number its storage bits in the format of the
width, a pointer the space it points into. Composite values are lists of lanes.
-/

namespace KernelForge.Device

open Binary (Format mask)
open Spirv (Id Family StorageClass BuiltIn)
open Text (natText)

inductive Ty where
  | void | bool
  | int (width : Nat)
  | float (width : Nat)
  | vector (element : Id) (lanes : Nat)
  | array (element : Id) (length : Nat)
  | pointer (storage : StorageClass) (pointee : Id)
  | function
deriving DecidableEq, Repr, Inhabited

def Ty.text : Ty → String
  | .void => "Void"
  | .bool => "Bool"
  | .int w => s!"Int({w})"
  | .float w => s!"Float({w})"
  | .vector e n => s!"Vector({e}, {n})"
  | .array e n => s!"Array({e}, {n})"
  | .pointer s e => s!"Pointer({Family.storageClass.text s}, {e})"
  | .function => "Function"

/-- Spaces a pointer points into. -/
inductive Space where
  /-- Absolute addresses. -/
  | heap
  /-- A variable of the work-item. -/
  | perItem (slot : Nat)
  /-- A variable of the workgroup. -/
  | perGroup (owner : Id)
  /-- A value the device provides. -/
  | input (builtIn : BuiltIn)
deriving DecidableEq, Repr, Inhabited

def Space.text : Space → String
  | .heap => "Heap"
  | .perItem n => s!"Private({n})"
  | .perGroup v => s!"Workgroup({v})"
  | .input b => s!"Input({Family.builtIn.text b})"

structure Pointer where
  space : Space
  offset : Nat
  pointee : Id
deriving DecidableEq, Repr, Inhabited

def Pointer.text (p : Pointer) : String :=
  "Pointer \x7b space: " ++ p.space.text ++ ", offset: " ++ natText p.offset ++ ", pointee: "
    ++ natText p.pointee ++ " \x7d"

inductive Value where
  | bool (b : Bool)
  | int (bits width : Nat)
  /-- A number by its storage bits in the format of the width. -/
  | float (bits width : Nat)
  | vector (lanes : List Value)
  | pointer (p : Pointer)
deriving Repr, Inhabited

def formatOf (width : Nat) : Format :=
  if width = 16 then .half else if width = 32 then .single else .double

/-- The bits of a number of a width as bits of a double. -/
def widen (bits width : Nat) : Nat :=
  if width = 16 then Binary.convert .half .double bits
  else if width = 32 then Binary.convert .single .double bits
  else bits

def narrow (bits width : Nat) : Nat :=
  if width = 16 then Binary.doubleToHalf bits
  else if width = 32 then Binary.convert .double .single bits
  else bits

/-- An integer cut to a width. -/
def Value.ofBits (bits width : Nat) : Value := .int (mask bits width) width

/-- A number rounded to a width. -/
def Value.ofDouble (bits width : Nat) : Value := .float (narrow bits width) width

mutual

def Value.text : Value → String
  | .bool true => "Bool(true)"
  | .bool false => "Bool(false)"
  | .int bits width => s!"Int \x7b bits: {bits}, width: {width} \x7d"
  | .float bits width =>
    s!"Float \x7b value: {Format.double.generalText (widen bits width)}, width: {width} \x7d"
  | .vector lanes => s!"Vector({Value.listText lanes})"
  | .pointer p => s!"Pointer({p.text})"

def Value.listText : List Value → String
  | [] => "[]"
  | v :: rest => s!"[{v.text}{Value.tailText rest}]"

/-- Written form of values after the first one of a list. -/
def Value.tailText : List Value → String
  | [] => ""
  | v :: rest => s!", {v.text}{Value.tailText rest}"

end

end KernelForge.Device
