import KernelForge.Codegen.Recipe

/-!
# Operators and conversions

Opcode selection by operator and kind, and the instructions of arithmetic, comparison, conversion,
selection and extended math. Operands of unequal width meet at the wider kind.
-/

namespace KernelForge.Codegen

open Lir (Kind ValueId BinaryOp UnaryOp ConvertOp Intrinsic)
open Spirv (Opcode MathOp)

/-! ## Opcode selection -/

/-- Opcode of an operator on truth values. -/
def boolOpcode : BinaryOp → Option Opcode
  | .and => some .logicalAnd
  | .or => some .logicalOr
  | .xor | .ne => some .logicalNotEqual
  | .eq => some .logicalEqual
  | _ => none

/-- Opcode of an operator on numbers; only `ne` holds of what is no number. -/
def floatOpcode : BinaryOp → Option Opcode
  | .add => some .fAdd
  | .sub => some .fSub
  | .mul => some .fMul
  | .div => some .fDiv
  | .rem => some .fRem
  | .eq => some .fOrdEqual
  | .ne => some .fUnordNotEqual
  | .lt => some .fOrdLessThan
  | .le => some .fOrdLessThanEqual
  | .gt => some .fOrdGreaterThan
  | .ge => some .fOrdGreaterThanEqual
  | _ => none

def integerOpcode : BinaryOp → Opcode
  | .add => .iAdd
  | .sub => .iSub
  | .mul => .iMul
  | .div => .sDiv
  | .rem => .sRem
  | .udiv => .uDiv
  | .urem => .uMod
  | .and => .bitwiseAnd
  | .or => .bitwiseOr
  | .xor => .bitwiseXor
  | .shl => .shiftLeftLogical
  | .shr => .shiftRightArithmetic
  | .ushr => .shiftRightLogical
  | .eq => .iEqual
  | .ne => .iNotEqual
  | .lt => .sLessThan
  | .le => .sLessThanEqual
  | .gt => .sGreaterThan
  | .ge => .sGreaterThanEqual
  | .ult => .uLessThan
  | .ule => .uLessThanEqual
  | .ugt => .uGreaterThan
  | .uge => .uGreaterThanEqual

/-- The opcode of an operator on operands of a kind. -/
def binaryOpcode? (op : BinaryOp) (k : Kind) : Option Opcode :=
  if k.isBool then boolOpcode op
  else if k.isFloat then floatOpcode op
  else if k.isIntegral then some (integerOpcode op)
  else none

def binaryOpcode (op : BinaryOp) (k : Kind) : Except Error Opcode :=
  match binaryOpcode? op k with
  | some opcode => .ok opcode
  | none => .error (.unimplemented (.binaryOn op k))

def unaryOpcode? (op : UnaryOp) (k : Kind) : Option Opcode :=
  match op with
  | .neg => if k.isFloat then some .fNegate else if k.isIntegral then some .sNegate else none
  | .not => if k = .bool then some .logicalNot else if k.isIntegral then some .not else none

/-- The extended instruction of an intrinsic on numbers. -/
def floatIntrinsic : Intrinsic → Option MathOp
  | .sqrt => some .sqrt
  | .rsqrt => some .rsqrt
  | .sin => some .sin
  | .cos => some .cos
  | .tan => some .tan
  | .exp => some .exp
  | .log => some .log
  | .pow => some .pow
  | .floor => some .floor
  | .ceil => some .ceil
  | .fma => some .fma
  | .abs => some .fabs
  | .min => some .fmin
  | .max => some .fmax
  | _ => none

/-- The extended instruction of an intrinsic on integers. -/
def integerIntrinsic : Intrinsic → Option MathOp
  | .abs => some .sAbs
  | .min => some .sMin
  | .max => some .sMax
  | .umin => some .uMin
  | .umax => some .uMax
  | .clz => some .clz
  | .popcount => some .popcount
  | _ => none

/-- The extended instruction of an intrinsic at a kind. -/
def mathOp? (op : Intrinsic) (k : Kind) : Option MathOp :=
  if k.isFloat then floatIntrinsic op
  else if k.isIntegral then integerIntrinsic op
  else none

/-! ## Instructions -/

namespace Select

/-- The second operand of an operator: a constant takes the kind of the first. -/
def secondOperand (rhs : Lir.Operand) (k : Kind) : Select Temp :=
  match rhs with
  | .const l => constant l.value k
  | .var _ => operand rhs

/-- Two operands at a common kind: kinds of one size take the first operand's, others the wider. -/
def reconcile (lhs rhs : Lir.Operand) : Select (Temp × Temp × Kind) := do
  let lk ← operandKind lhs
  let rk ← operandKind rhs
  if lk.size = rk.size ∨ lk.isBool ∨ rk.isBool then
    let a ← operand lhs
    let b ← secondOperand rhs lk
    return (a, b, lk)
  else if lk.lanes ≠ rk.lanes then fail (.unimplemented (.mixing lk rk))
  else
    let work := if rk.size < lk.size then lk else rk
    let a ← operandAs lhs work
    let b ← operandAs rhs work
    return (a, b, work)

/-- Operands of a shift: a constant count takes the kind of the shifted operand. -/
def shiftOperands (lhs rhs : Lir.Operand) : Select (Temp × Temp × Kind) := do
  let lk ← operandKind lhs
  let a ← operand lhs
  let b ← secondOperand rhs lk
  return (a, b, lk)

def binaryOperands (op : BinaryOp) (lhs rhs : Lir.Operand) : Select (Temp × Temp × Kind) :=
  if op.isShift then shiftOperands lhs rhs else reconcile lhs rhs

/-- A binary operation. An integer result may be fitted to the width of its destination. -/
def binary (dst : ValueId) (op : BinaryOp) (lhs rhs : Lir.Operand) : Select Unit := do
  let dstKind ← kindOf dst
  let (a, b, work) ← binaryOperands op lhs rhs
  let opcode ← ofExcept (binaryOpcode op work)
  let args : List Arg := [.value a, .value b]
  if op.isComparison then
    if dstKind ≠ .bool then fail (.unimplemented (.comparisonInto dstKind))
    else defineAs dst opcode (← typeOf .bool) args
  else
    let workType ← typeOf work
    let dstType ← typeOf dstKind
    if typeKind work = typeKind dstKind then defineAs dst opcode workType args
    else if op.resultWidthCanChange && work.isIntegral && dstKind.isIntegral
        && dstKind.lanes == work.lanes then
      let wide ← instr opcode workType args
      defineAs dst .uConvert dstType [.value wide]
    else fail (.unimplemented (.producing op dstKind work))

def unary (dst : ValueId) (op : UnaryOp) (src : Lir.Operand) : Select Unit := do
  let k ← kindOf dst
  let value ← operandAs src k
  match unaryOpcode? op k with
  | none => fail (.unimplemented (.unaryOn op k))
  | some opcode => defineAs dst opcode (← typeOf k) [.value value]

/-- A conversion; between kinds of one type it is the value itself. -/
def convert (dst : ValueId) (op : ConvertOp) (src : Lir.Operand) : Select Unit := do
  let target ← kindOf dst
  let source ← operandKind src
  let value ← operand src
  if ← sameType source target then forward dst value
  else
    let (opcode, args) ← conversion value source target op
    defineAs dst opcode (← typeOf target) args

def select (dst : ValueId) (cmp : BinaryOp) (lhs rhs onTrue onFalse : Lir.Operand) :
    Select Unit := do
  if !cmp.isComparison then fail (.unimplemented (.selectOn cmp))
  else
    let (a, b, work) ← reconcile lhs rhs
    let boolType ← typeOf .bool
    let opcode ← ofExcept (binaryOpcode cmp work)
    let condition ← instr opcode boolType [.value a, .value b]
    let k ← kindOf dst
    let t ← operandAs onTrue k
    let f ← operandAs onFalse k
    defineAs dst .select (← typeOf k) [.value condition, .value t, .value f]

/-- A test of common bits. -/
def integerTest (dst : ValueId) (lhs rhs : Lir.Operand) : Select Unit := do
  let (a, b, work) ← reconcile lhs rhs
  if !work.isIntegral then fail (.unimplemented (.integerTest work))
  else
    let type ← typeOf work
    let masked ← instr .bitwiseAnd type [.value a, .value b]
    let zeroTemp ← constant "0" work
    defineAs dst .iEqual (← typeOf .bool) [.value masked, .value zeroTemp]

def intrinsic (dst : ValueId) (op : Intrinsic) (args : List Lir.Operand) : Select Unit := do
  if args.length ≠ op.arity then fail (.unimplemented (.arity op args.length))
  else
    let k ← kindOf dst
    match mathOp? op k with
    | none => fail (.unimplemented (.intrinsicOn op k))
    | some inst =>
      let temps ← args.mapM fun arg => operandAs arg k
      let type ← typeOf k
      effect (.defineMath dst inst type (temps.map .value))

def move (dst : ValueId) (src : Lir.Operand) : Select Unit := do
  let k ← kindOf dst
  forward dst (← operandAs src k)

end Select

end KernelForge.Codegen
