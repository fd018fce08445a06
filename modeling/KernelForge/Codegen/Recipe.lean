import KernelForge.Error

/-!
# Straight-line code over numbered values

An operation becomes instructions in two steps. Selection writes a recipe: lines that declare types
and constants, fetch the values of operands, compute and define. Each line that has a value gives
it the next number, and later lines refer to it by that number. Emission turns the lines into
instructions one by one. A recipe does not say where the values of a function live, so it is the
same whether they live in slots or in results.
-/

namespace KernelForge.Codegen

open Lir (Kind Role Region ValueId ArrayId ThreadQuery ConvertOp)
open Spirv (Opcode MathOp StorageClass)

/-! ## Lines -/

/-- Number of a value of a recipe. -/
abbrev Temp := Nat

/-- Operands of a line. -/
inductive Arg where
  | value (t : Temp)
  | literal (n : Nat)
  /-- Flags of a memory access. -/
  | access (n : Nat)
deriving DecidableEq, Repr, Inhabited

/-- Lines that have a value. -/
inductive Expr where
  /-- The value of a variable of the function. -/
  | use (v : ValueId)
  | constant (text : String) (k : Kind)
  | type (k : Kind)
  | pointer (k : Kind) (storage : StorageClass)
  /-- The storage of an array. -/
  | array (a : ArrayId)
  /-- The variable of a coordinate. -/
  | coordinate (query : ThreadQuery)
  | callee (name : String)
  | instr (op : Opcode) (type : Temp) (args : List Arg)
  | math (op : MathOp) (type : Temp) (args : List Arg)
deriving DecidableEq, Repr, Inhabited

/-- Lines that have no value. -/
inductive Effect where
  | perform (op : Opcode) (args : List Arg)
  /-- Define a variable by one instruction. -/
  | define (v : ValueId) (op : Opcode) (type : Temp) (args : List Arg)
  | defineMath (v : ValueId) (op : MathOp) (type : Temp) (args : List Arg)
  /-- Define a variable as a value. -/
  | forward (v : ValueId) (t : Temp)
deriving DecidableEq, Repr, Inhabited

inductive Line where
  | value (e : Expr)
  | effect (c : Effect)
deriving DecidableEq, Repr, Inhabited

/-- A recipe being written: its lines and the number of values so far. -/
structure Recipe where
  lines : List Line := []
  count : Nat := 0
deriving DecidableEq, Repr, Inhabited

/-! ## Selection -/

/-- A function as its callers see it. -/
structure Interface where
  role : Role
  returnKind : Kind
  params : List Kind
deriving DecidableEq, Repr, Inhabited

/-- What selection looks at. -/
structure View where
  function : Lir.Function
  callee? : String → Option Interface
  /-- Element kind and region of a declared array. -/
  array? : ArrayId → Option (Kind × Region)

abbrev Select := ReaderT View (EStateM Error Recipe)

namespace Select

def fail {α : Type} (e : Error) : Select α := throw e

def value (e : Expr) : Select Temp :=
  modifyGet fun r => (r.count, ⟨r.lines ++ [.value e], r.count + 1⟩)

def effect (c : Effect) : Select Unit :=
  modify fun r => { r with lines := r.lines ++ [.effect c] }

def typeOf (k : Kind) : Select Temp := value (.type k)

def constant (text : String) (k : Kind) : Select Temp := value (.constant text k)

def instr (op : Opcode) (type : Temp) (args : List Arg) : Select Temp := value (.instr op type args)

def defineAs (v : ValueId) (op : Opcode) (type : Temp) (args : List Arg) : Select Unit :=
  effect (.define v op type args)

def forward (v : ValueId) (t : Temp) : Select Unit := effect (.forward v t)

def kindOf (v : ValueId) : Select Kind := do
  match (← read).function.kindOf? v with
  | some k => return k
  | none => fail (.undefinedValue (.noKind v))

def operandKind : Lir.Operand → Select Kind
  | .var v => kindOf v
  | .const l => return l.kind

def operand : Lir.Operand → Select Temp
  | .const l => constant l.value l.kind
  | .var v => value (.use v)

/-! ## Conversions -/

/-- Opcode of a value-preserving conversion between kinds of equal lane count. -/
def conversionOpcode (source target : Kind) (signed : Bool) : Option Opcode :=
  match source.isFloat, target.isFloat with
  | false, false =>
    if source.isIntegral && target.isIntegral then some (if signed then .sConvert else .uConvert)
    else none
  | false, true =>
    if source.isIntegral then some (if signed then .convertSToF else .convertUToF) else none
  | true, false =>
    if target.isIntegral then some (if signed then .convertFToS else .convertFToU) else none
  | true, true => some .fConvert

def conversion (value : Temp) (source target : Kind) (op : ConvertOp) :
    Select (Opcode × List Arg) := do
  if source.lanes ≠ target.lanes then fail (.unimplemented (.conversion source target))
  else if op = .bitcast then
    if source.size ≠ target.size ∨ source.isBool ∨ target.isBool then
      fail (.unimplemented (.bitcast source target))
    else return (.bitcast, [.value value])
  else if source.isBool && target.isIntegral then
    let oneTemp ← constant "1" target
    let zeroTemp ← constant "0" target
    return (.select, [.value value, .value oneTemp, .value zeroTemp])
  else if source.isIntegral && target.isBool then
    let zeroTemp ← constant "0" source
    return (.iNotEqual, [.value value, .value zeroTemp])
  else
    match conversionOpcode source target (op == .signed) with
    | some opcode => return (opcode, [.value value])
    | none => fail (.unimplemented (.conversion source target))

/-- The kind whose type a kind has: an address is a 64-bit integer. -/
def typeKind : Kind → Kind
  | .ptr => .i64
  | k => k

def sameType (a b : Kind) : Select Bool := do
  let _ ← typeOf a
  let _ ← typeOf b
  return typeKind a == typeKind b

def convertSigned (value : Temp) (source target : Kind) : Select Temp := do
  if ← sameType source target then return value
  else
    let (opcode, args) ← conversion value source target .signed
    let type ← typeOf target
    instr opcode type args

/-- An operand at a kind; a constant is declared anew at the kind. -/
def operandAs (o : Lir.Operand) (k : Kind) : Select Temp := do
  match o with
  | .const l => constant l.value k
  | .var v =>
    let actual ← kindOf v
    let t ← operand o
    if actual = k then return t
    else convertSigned t actual k

def aligned (size : Nat) : List Arg := [.access 2, .literal (max size 1)]

end Select

end KernelForge.Codegen
