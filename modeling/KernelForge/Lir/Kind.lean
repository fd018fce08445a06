import KernelForge.Text.Numeral

/-!
# Kinds of values

The closed set of value descriptors of the intermediate representation: scalars, raw device
addresses and vectors of scalars. A `ptr` is a raw 64-bit address and shares its representation
with `i64`.
-/

namespace KernelForge.Lir

/-- Scalar lane type of a vector. -/
inductive Element where
  | i8 | i16 | i32 | i64 | f16 | f32 | f64
deriving DecidableEq, Repr, Inhabited

/-- Descriptor of a value. The lane count of a vector is any byte; `Kind.lanesAllowed` says which
ones a device can declare. -/
inductive Kind where
  | void | bool | i8 | i16 | i32 | i64 | f16 | f32 | f64 | ptr
  | vector (element : Element) (lanes : UInt8)
deriving DecidableEq, Repr, Inhabited

/-- The scalar kind of a lane. -/
def Element.kind : Element → Kind
  | .i8 => .i8
  | .i16 => .i16
  | .i32 => .i32
  | .i64 => .i64
  | .f16 => .f16
  | .f32 => .f32
  | .f64 => .f64

namespace Kind

/-- Lane counts a device can declare. -/
def lanesAllowed : List UInt8 := [2, 3, 4, 8, 16]

/-- A vector kind with an allowed lane count. -/
def vector? (element : Element) (lanes : UInt8) : Option Kind :=
  if lanes ∈ lanesAllowed then some (.vector element lanes) else none

/-- Size in bytes of a kind that is not a vector. -/
def scalarSize : Kind → Nat
  | .void => 0
  | .bool | .i8 => 1
  | .i16 | .f16 => 2
  | .i32 | .f32 => 4
  | .i64 | .f64 | .ptr => 8
  | .vector _ _ => 0

def size : Kind → Nat
  | .vector e n => e.kind.scalarSize * n.toNat
  | k => k.scalarSize

def bits (k : Kind) : Nat := k.size * 8

/-- Number of lanes, one for everything that is not a vector. -/
def lanes : Kind → Nat
  | .vector _ n => n.toNat
  | _ => 1

/-- Kind of a lane, the kind itself when it is not a vector. -/
def element : Kind → Kind
  | .vector e _ => e.kind
  | k => k

def isInteger (k : Kind) : Bool :=
  match k.element with
  | .i8 | .i16 | .i32 | .i64 => true
  | _ => false

/-- Floating-point numbers and vectors of them. -/
def isFloat (k : Kind) : Bool :=
  match k.element with
  | .f16 | .f32 | .f64 => true
  | _ => false

def isVector : Kind → Bool
  | .vector _ _ => true
  | _ => false

def isPointer (k : Kind) : Bool := k == .ptr

def isBool (k : Kind) : Bool := k == .bool

/-- Integers and raw addresses: what integer arithmetic applies to. -/
def isIntegral (k : Kind) : Bool := k.isInteger || k.isPointer

/-- The lane type a scalar becomes in a vector; addresses become 64-bit integers. -/
def asElement? : Kind → Option Element
  | .i8 => some .i8
  | .i16 => some .i16
  | .i32 => some .i32
  | .i64 | .ptr => some .i64
  | .f16 => some .f16
  | .f32 => some .f32
  | .f64 => some .f64
  | _ => none

/-- Kind a value has in memory: a truth value is stored as a byte. -/
def storage : Kind → Kind
  | .bool => .i8
  | k => k

/-- Name of a kind that is not a vector. -/
def scalarText : Kind → String
  | .void => "void"
  | .bool => "bool"
  | .i8 => "char"
  | .i16 => "short"
  | .i32 => "int"
  | .i64 => "long"
  | .f16 => "half"
  | .f32 => "float"
  | .f64 => "double"
  | .ptr => "ptr"
  | .vector _ _ => "vector"

/-- The name of a kind; a vector is its lane name and its lane count. -/
def text : Kind → String
  | .vector e n => e.kind.scalarText ++ Text.natText n.toNat
  | k => k.scalarText

end Kind

end KernelForge.Lir
