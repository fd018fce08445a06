import KernelForge.Lir.Kind

/-!
# Functions in single-assignment form

The intermediate representation: a module is a list of functions; a function has parameters,
declared values and arrays, and blocks; a block has operations and one terminator. Merges (`phi`)
lead their block. Everything is plain data; nothing here checks well-formedness.
-/

namespace KernelForge.Lir

structure ValueId where
  index : UInt32
deriving DecidableEq, Repr, Inhabited

structure BlockId where
  index : UInt32
deriving DecidableEq, Repr, Inhabited

structure ArrayId where
  index : UInt32
deriving DecidableEq, Repr, Inhabited

def ValueId.text (v : ValueId) : String := "%" ++ Text.natText v.index.toNat

def BlockId.text (b : BlockId) : String := "BB" ++ Text.natText b.index.toNat

def ArrayId.text (a : ArrayId) : String := "@" ++ Text.natText a.index.toNat

/-- Entry kernel or callable device function. -/
inductive Role where
  | kernel | device
deriving DecidableEq, Repr, Inhabited

/-- Memory region an array lives in: one copy per work-item, or one per workgroup. -/
inductive Region where
  | perItem | perGroup
deriving DecidableEq, Repr, Inhabited

def Region.text : Region → String
  | .perItem => "private"
  | .perGroup => "local"

/-- A typed literal, kept as its text. -/
structure Literal where
  value : String
  kind : Kind
deriving DecidableEq, Repr, Inhabited

/-- A value or a literal. -/
inductive Operand where
  | var (v : ValueId)
  | const (l : Literal)
deriving DecidableEq, Repr, Inhabited

/-- Abstract address of a load or store. -/
inductive Address where
  /-- Byte offset from a raw address in the heap. -/
  | heap (base : ValueId) (offset : Option Operand)
  /-- Byte offset from a raw address in the generic address space. -/
  | generic (base : ValueId) (offset : Option Operand)
  /-- Element of an array of the given region. -/
  | array (region : Region) (array : ArrayId) (index : Operand)
deriving DecidableEq, Repr, Inhabited

inductive BinaryOp where
  | add | sub | mul | div | rem | udiv | urem | and | or | xor | shl | shr | ushr
  | eq | ne | lt | le | gt | ge | ult | ule | ugt | uge
deriving DecidableEq, Repr, Inhabited

namespace BinaryOp

/-- Operators in declaration order. -/
def all : List BinaryOp :=
  [.add, .sub, .mul, .div, .rem, .udiv, .urem, .and, .or, .xor, .shl, .shr, .ushr,
   .eq, .ne, .lt, .le, .gt, .ge, .ult, .ule, .ugt, .uge]

/-- Written name in the data format. -/
def name : BinaryOp → String
  | .add => "add" | .sub => "sub" | .mul => "mul" | .div => "div" | .rem => "rem"
  | .udiv => "udiv" | .urem => "urem" | .and => "and" | .or => "or" | .xor => "xor"
  | .shl => "shl" | .shr => "shr" | .ushr => "ushr"
  | .eq => "eq" | .ne => "ne" | .lt => "lt" | .le => "le" | .gt => "gt" | .ge => "ge"
  | .ult => "ult" | .ule => "ule" | .ugt => "ugt" | .uge => "uge"

/-- Name in messages. -/
def title : BinaryOp → String
  | .add => "Add" | .sub => "Sub" | .mul => "Mul" | .div => "Div" | .rem => "Rem"
  | .udiv => "UDiv" | .urem => "URem" | .and => "And" | .or => "Or" | .xor => "Xor"
  | .shl => "Shl" | .shr => "Shr" | .ushr => "UShr"
  | .eq => "Eq" | .ne => "Ne" | .lt => "Lt" | .le => "Le" | .gt => "Gt" | .ge => "Ge"
  | .ult => "ULt" | .ule => "ULe" | .ugt => "UGt" | .uge => "UGe"

/-- Operators whose result is a truth value. -/
def isComparison : BinaryOp → Bool
  | .eq | .ne | .lt | .le | .gt | .ge | .ult | .ule | .ugt | .uge => true
  | _ => false

/-- Operators whose second operand is a bit count. -/
def isShift : BinaryOp → Bool
  | .shl | .shr | .ushr => true
  | _ => false

/-- Operators whose integer result may be fitted to the width of its destination. -/
def resultWidthCanChange : BinaryOp → Bool
  | .add | .sub | .mul | .div | .rem | .udiv | .urem | .and | .or | .xor => true
  | _ => false

end BinaryOp

inductive UnaryOp where
  | neg | not
deriving DecidableEq, Repr, Inhabited

def UnaryOp.title : UnaryOp → String
  | .neg => "Neg"
  | .not => "Not"

/-- Conversions: value-preserving with integers read as signed or unsigned, or of the bits. -/
inductive ConvertOp where
  | signed | unsigned | bitcast
deriving DecidableEq, Repr, Inhabited

/-- Extended math. -/
inductive Intrinsic where
  | sqrt | rsqrt | sin | cos | tan | exp | log | pow | floor | ceil | fma | abs | min | max
  | umin | umax | clz | popcount
deriving DecidableEq, Repr, Inhabited

namespace Intrinsic

/-- Intrinsics in declaration order. -/
def all : List Intrinsic :=
  [.sqrt, .rsqrt, .sin, .cos, .tan, .exp, .log, .pow, .floor, .ceil, .fma, .abs, .min, .max,
   .umin, .umax, .clz, .popcount]

def name : Intrinsic → String
  | .sqrt => "sqrt" | .rsqrt => "rsqrt" | .sin => "sin" | .cos => "cos" | .tan => "tan"
  | .exp => "exp" | .log => "log" | .pow => "pow" | .floor => "floor" | .ceil => "ceil"
  | .fma => "fma" | .abs => "abs" | .min => "min" | .max => "max" | .umin => "umin"
  | .umax => "umax" | .clz => "clz" | .popcount => "popcount"

def title : Intrinsic → String
  | .sqrt => "Sqrt" | .rsqrt => "Rsqrt" | .sin => "Sin" | .cos => "Cos" | .tan => "Tan"
  | .exp => "Exp" | .log => "Log" | .pow => "Pow" | .floor => "Floor" | .ceil => "Ceil"
  | .fma => "Fma" | .abs => "Abs" | .min => "Min" | .max => "Max" | .umin => "UMin"
  | .umax => "UMax" | .clz => "Clz" | .popcount => "Popcount"

/-- Number of arguments. -/
def arity : Intrinsic → Nat
  | .fma => 3
  | .pow | .min | .max | .umin | .umax => 2
  | _ => 1

end Intrinsic

/-- Coordinates a work-item can ask for. -/
inductive ThreadQuery where
  | globalId | globalSize | localId | groupId | workgroupSize
deriving DecidableEq, Repr, Inhabited

namespace ThreadQuery

/-- Queries in declaration order. -/
def all : List ThreadQuery := [.globalId, .globalSize, .localId, .groupId, .workgroupSize]

def name : ThreadQuery → String
  | .globalId => "global_id"
  | .globalSize => "global_size"
  | .localId => "local_id"
  | .groupId => "group_id"
  | .workgroupSize => "workgroup_size"

def title : ThreadQuery → String
  | .globalId => "GlobalId"
  | .globalSize => "GlobalSize"
  | .localId => "LocalId"
  | .groupId => "GroupId"
  | .workgroupSize => "WorkgroupSize"

end ThreadQuery

/-- Memory a barrier orders: the workgroup's or the heap. -/
inductive Fence where
  | workgroup | heap
deriving DecidableEq, Repr, Inhabited

inductive Op where
  | binary (dst : ValueId) (op : BinaryOp) (lhs rhs : Operand)
  | unary (dst : ValueId) (op : UnaryOp) (src : Operand)
  | convert (dst : ValueId) (op : ConvertOp) (src : Operand)
  /-- `dst = if lhs cmp rhs then onTrue else onFalse`. -/
  | select (dst : ValueId) (cmp : BinaryOp) (lhs rhs onTrue onFalse : Operand)
  /-- `dst = (lhs and rhs) is zero`, bit by bit. -/
  | integerTest (dst : ValueId) (lhs rhs : Operand)
  | intrinsic (dst : ValueId) (op : Intrinsic) (args : List Operand)
  | move (dst : ValueId) (src : Operand)
  | load (dst : ValueId) (address : Address)
  | store (address : Address) (value : Operand)
  | vectorBuild (dst : ValueId) (elements : List Operand)
  | vectorExtract (dst : ValueId) (vector : Operand) (lane : UInt32)
  | vectorInsert (dst : ValueId) (vector : Operand) (lane : UInt32) (value : Operand)
  | call (dst : Option ValueId) (callee : String) (args : List Operand)
  | phi (dst : ValueId) (incoming : List (BlockId × Operand))
  | threadId (dst : ValueId) (query : ThreadQuery) (dimension : UInt32)
  | barrier (fence : Fence)
deriving DecidableEq, Repr, Inhabited

namespace Op

/-- The value an operation defines. -/
def dst? : Op → Option ValueId
  | .binary d _ _ _ | .unary d _ _ | .convert d _ _ | .select d _ _ _ _ _ | .integerTest d _ _
  | .intrinsic d _ _ | .move d _ | .load d _ | .vectorBuild d _ | .vectorExtract d _ _
  | .vectorInsert d _ _ _ | .phi d _ | .threadId d _ _ => some d
  | .call d _ _ => d
  | .store _ _ | .barrier _ => none

def isPhi : Op → Bool
  | .phi _ _ => true
  | _ => false

end Op

/-- Loop annotation of a header's conditional branch. -/
structure LoopHint where
  merge : BlockId
  continueTarget : BlockId
  unroll : Bool
deriving DecidableEq, Repr, Inhabited

inductive Terminator where
  | jump (target : BlockId)
  | branch (condition : Operand) (onTrue onFalse : BlockId) (loopHint : Option LoopHint)
  | switch (selector : Operand) (cases : List (Int64 × BlockId)) (default : BlockId)
  | ret (value : Option Operand)
  | unreachable
deriving DecidableEq, Repr, Inhabited

/-- Blocks control may go to: the cases in order, then the default. -/
def Terminator.successors : Terminator → List BlockId
  | .jump b => [b]
  | .branch _ t f _ => [t, f]
  | .switch _ cases default => cases.map Prod.snd ++ [default]
  | .ret _ | .unreachable => []

structure Block where
  id : BlockId
  ops : List Op
  terminator : Terminator
deriving DecidableEq, Repr, Inhabited

/-- A parameter; the name is for listings only. -/
structure Param where
  var : ValueId
  kind : Kind
  name : Option String
deriving DecidableEq, Repr, Inhabited

structure ValueDecl where
  var : ValueId
  kind : Kind
deriving DecidableEq, Repr, Inhabited

structure ArrayDecl where
  id : ArrayId
  region : Region
  element : Kind
  length : UInt32
deriving DecidableEq, Repr, Inhabited

/-- A function; its first block is the entry. -/
structure Function where
  name : String
  role : Role
  params : List Param
  returnKind : Kind
  locals : List ValueDecl
  arrays : List ArrayDecl
  blocks : List Block
deriving DecidableEq, Repr, Inhabited

namespace Function

def entry? (f : Function) : Option BlockId := f.blocks.head?.map Block.id

/-- Whether the function can be launched. -/
def isKernel (f : Function) : Bool := f.role == .kernel

/-- Parameters and declared values in declaration order. -/
def values (f : Function) : List (ValueId × Kind) :=
  f.params.map (fun p => (p.var, p.kind)) ++ f.locals.map (fun v => (v.var, v.kind))

/-- Declared kind of a value; the first declaration counts. -/
def kindOf? (f : Function) (v : ValueId) : Option Kind :=
  (f.values.find? fun e => e.1 == v).map Prod.snd

/-- The first array declared under a name. -/
def array? (f : Function) (id : ArrayId) : Option ArrayDecl :=
  f.arrays.find? fun a => a.id == id

end Function

structure Module where
  name : String
  functions : List Function
deriving DecidableEq, Repr, Inhabited

namespace Module

def function? (m : Module) (name : String) : Option Function :=
  m.functions.find? fun f => f.name == name

/-- Functions that can be launched, in order. -/
def kernels (m : Module) : List Function :=
  m.functions.filter Function.isKernel

end Module

end KernelForge.Lir
