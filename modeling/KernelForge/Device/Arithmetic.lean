import KernelForge.Binary.Exact
import KernelForge.Device.Fault

/-!
# What instructions compute

Operators on values: conversions, unary and binary operators and the extended functions, and their
extension to vectors lane by lane. Numbers of every width are computed as doubles and rounded to
their width; integers are computed on 64-bit words and cut to their width.
-/

namespace KernelForge.Device

open Binary (Format Number signExtend word64)
open Binary.Format (double)
open Spirv (Opcode MathOp)

namespace Value

def asBool : Value → Except Fault Bool
  | .bool b => .ok b
  | v => .error (.expected .bool v)

/-- The word of an integer or of a heap pointer. -/
def asWord : Value → Except Fault Nat
  | .int bits _ => .ok bits
  | .pointer ⟨.heap, offset, _⟩ => .ok offset
  | v => .error (.expected .integer v)

/-- The signed number of an integer, which is shifted to the top of a word and back. -/
def asSigned : Value → Except Fault Int
  | .int bits width =>
    if width = 0 then .error (.trapped (.shift 64)) else .ok (signExtend bits width)
  | v => .error (.expected .integer v)

/-- The bits of a number as bits of a double. -/
def asDouble : Value → Except Fault Nat
  | .float bits width => .ok (widen bits width)
  | v => .error (.expected .float v)

def asPointer : Value → Except Fault Pointer
  | .pointer p => .ok p
  | v => .error (.expected .pointer v)

end Value

/-! ## Numbers and integers -/

def doubleOfInt (n : Int) : Nat := double.ofRatio (decide (n < 0)) n.natAbs 1

/-- Integer part of a number, toward zero; a number out of the range takes its nearest end and
what is no number is zero. -/
def integerPart (low high : Int) : Number → Int
  | .nan => 0
  | .infinite negative => if negative then low else high
  | .finite negative m p =>
    let magnitude : Int :=
      if 0 ≤ p then (m * Nat.pow 2 p.toNat : Nat) else (m / Nat.pow 2 (-p).toNat : Nat)
    max low (min high (if negative then -magnitude else magnitude))

def signedPart (bits : Nat) : Int :=
  integerPart (-(Nat.pow 2 63 : Int)) (Nat.pow 2 63 - 1) (double.decode bits)

def unsignedPart (bits : Nat) : Int := integerPart 0 (Nat.pow 2 64 - 1) (double.decode bits)

def convert (op : Opcode) (v : Value) (target : Ty) : Except Fault Value :=
  match op, target with
  | .sConvert, .int w => do return .ofBits (word64 (← v.asSigned)) w
  | .uConvert, .int w => do return .ofBits (← v.asWord) w
  | .convertSToF, .float w => do return .ofDouble (doubleOfInt (← v.asSigned)) w
  | .convertUToF, .float w => do return .ofDouble (doubleOfInt (← v.asWord)) w
  | .convertFToS, .int w => do return .ofBits (word64 (signedPart (← v.asDouble))) w
  | .convertFToU, .int w => do return .ofBits (word64 (unsignedPart (← v.asDouble))) w
  | .fConvert, .float w => do return .ofDouble (← v.asDouble) w
  | op, target => .error (.cannotProduce op target)

/-- The number of a double's bits. -/
def toFloat (bits width : Nat) : Float := Float.ofBits (UInt64.ofNat (widen bits width))

/-- A computed number rounded to a width. -/
def ofFloat (x : Float) (width : Nat) : Value := .ofDouble x.toBits.toNat width

/-- The number with its sign changed. -/
def negate (bits width : Nat) : Nat :=
  let sign := (formatOf width).signBit true
  if bits / sign % 2 = 0 then bits + sign else bits - sign

def unary (op : Opcode) (v : Value) : Except Fault Value :=
  match op, v with
  | .not, .int bits width => .ok (.ofBits (Nat.pow 2 64 - 1 - bits) width)
  | .sNegate, .int bits width => .ok (.ofBits (word64 (-bits)) width)
  | .fNegate, .float bits width => .ok (.float (negate bits width) width)
  | .logicalNot, .bool b => .ok (.bool (!b))
  | op, v => .error (.unaryOn op v)

/-- Quotient and remainder of signed division, which truncates; it faults on a zero divisor and
where the quotient is no signed 64-bit number. -/
def signedDivision (op : Opcode) (a b : Int) (width : Nat) : Except Fault (Int × Int) :=
  if b = 0 then .error (.dividesByZero op)
  else if a = -(Nat.pow 2 63 : Int) ∧ b = -1 then .error (.overflows op width)
  else .ok (a.tdiv b, a.tmod b)

/-- Binary operators on integers of a width that is not zero. -/
def wordBinary (op : Opcode) (a b width : Nat) : Except Fault Value :=
  let sa := signExtend a width
  let sb := signExtend b width
  let shift := b % width
  let word (n : Int) : Except Fault Value := .ok (.ofBits (word64 n) width)
  let shifted (n : Int) : Except Fault Value :=
    if shift < 64 then word n else .error (.trapped (.shift shift))
  match op with
  | .iAdd => word (a + b)
  | .iSub => word (a - b)
  | .iMul => word (a * b)
  | .sDiv => do word (← signedDivision op sa sb width).1
  | .sRem => do word (← signedDivision op sa sb width).2
  | .sMod => do
    let r := (← signedDivision op sa sb width).2
    word (if r ≠ 0 ∧ (r < 0) ≠ (sb < 0) then r + sb else r)
  | .uDiv => if b = 0 then .error (.dividesByZero op) else word (a / b : Nat)
  | .uMod => if b = 0 then .error (.dividesByZero op) else word (a % b : Nat)
  | .bitwiseAnd => word (a &&& b : Nat)
  | .bitwiseOr => word (a ||| b : Nat)
  | .bitwiseXor => word (a ^^^ b : Nat)
  | .shiftLeftLogical => shifted (a * Nat.pow 2 shift : Nat)
  | .shiftRightLogical => shifted (a / Nat.pow 2 shift : Nat)
  | .shiftRightArithmetic => shifted (sa / Nat.pow 2 shift)
  | .iEqual => .ok (.bool (a == b))
  | .iNotEqual => .ok (.bool (a != b))
  | .uLessThan => .ok (.bool (a < b))
  | .uLessThanEqual => .ok (.bool (a ≤ b))
  | .uGreaterThan => .ok (.bool (b < a))
  | .uGreaterThanEqual => .ok (.bool (b ≤ a))
  | .sLessThan => .ok (.bool (sa < sb))
  | .sLessThanEqual => .ok (.bool (sa ≤ sb))
  | .sGreaterThan => .ok (.bool (sb < sa))
  | .sGreaterThanEqual => .ok (.bool (sb ≤ sa))
  | op => .error (.onIntegers op)

/-- Binary operators on integers; the amount of a shift is taken modulo the width. -/
def intBinary (op : Opcode) (a b width : Nat) : Except Fault Value :=
  if width = 0 then .error (.trapped .remainder) else wordBinary op a b width

/-- The remainder of two doubles. -/
def remainder (a b : Nat) : Nat :=
  double.ofNumber (Number.rem (double.decode a) (double.decode b))

/-- Binary operators on numbers, given as bits of doubles. -/
def floatBinary (op : Opcode) (a b width : Nat) : Except Fault Value :=
  let x := Float.ofBits (UInt64.ofNat a)
  let y := Float.ofBits (UInt64.ofNat b)
  let unordered := double.isNan a || double.isNan b
  match op with
  | .fAdd => .ok (ofFloat (x + y) width)
  | .fSub => .ok (ofFloat (x - y) width)
  | .fMul => .ok (ofFloat (x * y) width)
  | .fDiv => .ok (ofFloat (x / y) width)
  | .fRem => .ok (.ofDouble (remainder a b) width)
  | .fOrdEqual => .ok (.bool (x == y))
  | .fOrdNotEqual => .ok (.bool (!unordered && x != y))
  | .fOrdLessThan => .ok (.bool (x < y))
  | .fOrdLessThanEqual => .ok (.bool (x ≤ y))
  | .fOrdGreaterThan => .ok (.bool (y < x))
  | .fOrdGreaterThanEqual => .ok (.bool (y ≤ x))
  | .fUnordEqual => .ok (.bool (unordered || x == y))
  | .fUnordNotEqual => .ok (.bool (x != y))
  | op => .error (.onFloats op)

def boolBinary (op : Opcode) (a b : Bool) : Except Fault Value :=
  match op with
  | .logicalAnd => .ok (.bool (a && b))
  | .logicalOr => .ok (.bool (a || b))
  | .logicalEqual => .ok (.bool (a == b))
  | .logicalNotEqual => .ok (.bool (a != b))
  | op => .error (.onBools op)

/-- Binary operators; the width of the first operand counts. -/
def binary (op : Opcode) (lhs rhs : Value) : Except Fault Value :=
  match lhs, rhs with
  | .int a width, .int b _ => intBinary op a b width
  | .float a width, .float b width' => floatBinary op (widen a width) (widen b width') width
  | .bool a, .bool b => boolBinary op a b
  | lhs, rhs => .error (.binaryOn op lhs rhs)

/-! ## Extended functions -/

/-- Functions of one number. -/
def mathFloat (op : MathOp) (x : Float) : Except Fault Float :=
  match op with
  | .sqrt => .ok x.sqrt
  | .rsqrt => .ok (1.0 / x.sqrt)
  | .sin => .ok x.sin
  | .cos => .ok x.cos
  | .tan => .ok x.tan
  | .exp => .ok x.exp
  | .log => .ok x.log
  | .floor => .ok x.floor
  | .ceil => .ok x.ceil
  | .fabs => .ok x.abs
  | op => .error (.mathOn op .aFloat)

/-- The smaller of two numbers, or the one that is a number. -/
def smaller (x y : Float) : Float := if x.isNaN then y else if y.isNaN || x < y then x else y

/-- The larger of two numbers, or the one that is a number. -/
def larger (x y : Float) : Float := if x.isNaN then y else if y.isNaN || y < x then x else y

/-- Functions of two numbers. -/
def mathFloats (op : MathOp) (x y : Float) : Except Fault Float :=
  match op with
  | .pow => .ok (x.pow y)
  | .fmin => .ok (smaller x y)
  | .fmax => .ok (larger x y)
  | op => .error (.mathOn op .twoFloats)

/-- Number of zero bits above the highest one bit: those of a 64-bit word less those above the
width. -/
def leadingZeros (bits width : Nat) : Except Fault Nat :=
  if 64 < width ∨ Nat.pow 2 width ≤ bits then .error (.trapped .difference)
  else .ok (if bits = 0 then width else width - (bits.log2 + 1))

def oneBits (bits width : Nat) : Nat := (List.range width).countP (bits.testBit ·)

/-- Functions of one integer. -/
def mathInt (op : MathOp) (bits width : Nat) : Except Fault Nat :=
  match op with
  | .sAbs => do return (← (Value.int bits width).asSigned).natAbs
  | .clz => leadingZeros bits width
  | .popcount => .ok (oneBits bits width)
  | op => .error (.mathOn op .anInteger)

/-- Functions of two integers. -/
def mathInts (op : MathOp) (a b width : Nat) : Except Fault Nat := do
  let sa ← (Value.int a width).asSigned
  let sb ← (Value.int b width).asSigned
  match op with
  | .sMin => .ok (word64 (min sa sb))
  | .sMax => .ok (word64 (max sa sb))
  | .uMin => .ok (min a b)
  | .uMax => .ok (max a b)
  | op => .error (.mathOn op .twoIntegers)

/-- The product of two doubles plus a third one, rounded once. -/
def mulAdd (a b c : Nat) : Nat :=
  double.ofNumber
    (Number.mulAdd (double.decode a) (double.decode b) (double.decode c))

/-- Extended functions; the width of the first argument counts. -/
def math (op : MathOp) (args : List Value) : Except Fault Value :=
  match args with
  | [.float x w] => do return ofFloat (← mathFloat op (toFloat x w)) w
  | [.float x w, .float y w'] => do return ofFloat (← mathFloats op (toFloat x w) (toFloat y w')) w
  | [.float x w, .float y w', .float z w''] =>
    if op = .fma then .ok (.ofDouble (mulAdd (widen x w) (widen y w') (widen z w'')) w)
    else .error (.mathOnValues op args)
  | [.int a w] => do return .ofBits (← mathInt op a w) w
  | [.int a w, .int b _] => do return .ofBits (← mathInts op a b w) w
  | args => .error (.mathOnValues op args)

/-! ## Vectors -/

def laneCount? : List Value → Option Nat
  | [] => none
  | .vector lanes :: _ => some lanes.length
  | _ :: rest => laneCount? rest

/-- The argument a lane sees: its lane of a vector, any other value as it is. -/
def laneArg (lane : Nat) : Value → Except Fault Value
  | .vector lanes =>
    match lanes[lane]? with
    | some v => .ok v
    | none => .error .laneCount
  | v => .ok v

/-- Apply a function lane by lane if some argument is a vector. -/
def mapLanes (f : List Value → Except Fault Value) (args : List Value) : Except Fault Value :=
  match laneCount? args with
  | none => f args
  | some n => do
    let lanes ← (List.range n).mapM fun lane => do f (← args.mapM (laneArg lane))
    return .vector lanes

/-- The operators an instruction applies to each lane. -/
def applyOperator (op : Opcode) (args : List Value) : Except Fault Value :=
  match args with
  | [x] => unary op x
  | [x, y] => binary op x y
  | args => .error (.operandCount op args.length)

end KernelForge.Device
