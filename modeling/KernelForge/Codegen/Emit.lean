import KernelForge.Codegen.Builtins
import KernelForge.Codegen.Recipe
import KernelForge.Codegen.Symbols

/-!
# Steps inside a function

Emission of recipes. In spill mode each variable has a slot: a use loads the slot and a definition
stores to it. Otherwise a variable is the result that defines it.
-/

namespace KernelForge.Codegen

open Lir (Kind ValueId BlockId)
open Spirv (Id Opcode)

/-- A function as a call sees it. -/
structure Signature extends Interface where
  id : Id
deriving DecidableEq, Repr, Inhabited

/-- What surrounds a function under assembly. -/
structure Scope where
  settings : CodegenSettings
  function : Lir.Function
  builtins : Builtins
  callees : Table String Signature
  /-- The block that void returns lead to. -/
  returnBlock : Option Id

/-- Steps inside a function. -/
abbrev Emit := ReaderT Scope (EStateM Error Body)

namespace Emit

def build {α : Type} (step : Build α) : Emit α := fun _ =>
  step.within Body.session fun b session => { b with session }

def fail {α : Type} (e : Error) : Emit α := throw e

/-- Whether every value lives in a slot. -/
def spilling : Emit Bool := do return !(← read).settings.optimizeLoadStore

def kindOf (v : ValueId) : Emit Kind := do
  match (← read).function.kindOf? v with
  | some k => return k
  | none => fail (.undefinedValue (.noKind v))

def typeOf (k : Kind) : Emit Id := build (Build.typeOf k)

def constant (value : String) (k : Kind) : Emit Id := build (Build.constant value k)

def label (block : BlockId) : Emit Id := modifyGet fun b => b.label block

/-- The id of a new definition of a variable. -/
def resultFor (v : ValueId) : Emit Id := modifyGet fun b => b.resultId v

/-- The slot of a variable in spill mode. -/
def slotOf (v : ValueId) : Emit (Option Id) := do
  if ← spilling then return (← get).symbols.slots.get? v
  return none

def use (v : ValueId) : Emit Id := do
  match ← slotOf v with
  | some slot =>
    let type ← typeOf (← kindOf v)
    build (Build.emit .load type [.ref slot])
  | none => do ofExcept ((← get).symbols.resolve v)

/-! ## Definitions -/

/-- Record the definition of a variable; in spill mode also store it. -/
def define (v : ValueId) (id : Id) : Emit Unit := do
  modify fun b => { b with symbols := b.symbols.define v id }
  match ← slotOf v with
  | some slot => build (Build.emitVoid .store [.ref slot, .ref id])
  | none => return ()

/-- Define a variable by one instruction. -/
def defineAs (v : ValueId) (op : Opcode) (type : Id) (operands : List Spirv.Operand) :
    Emit Unit := do
  let result ← resultFor v
  build (Build.emitAs op type result operands)
  define v result

/-- Define a variable as a value; it is copied only if a merge waits for its id. -/
def forward (v : ValueId) (id : Id) : Emit Unit := do
  if (← get).symbols.isReserved v then
    let type ← typeOf (← kindOf v)
    defineAs v .copyObject type [.ref id]
  else define v id

/-! ## Recipes -/

/-- The id of a value of a recipe; `ids` are those of the values so far. -/
def temp (ids : List Id) (t : Temp) : Emit Id :=
  match ids[t]? with
  | some id => return id
  | none => fail (.undefinedValue (.value ⟨t.toUInt32⟩))

def arg (ids : List Id) : Arg → Emit Spirv.Operand
  | .value t => return .ref (← temp ids t)
  | .literal n => return .literal n
  | .access n => return .enumerant .memoryAccess n

/-- A line that has a value. -/
def expr (ids : List Id) : Expr → Emit Id
  | .use v => use v
  | .constant text k => constant text k
  | .type k => typeOf k
  | .pointer k storage => build (Build.pointerTo k storage)
  | .array a => do
    match (← get).symbols.arrays.get? a with
    | some slot => return slot.storageVar
    | none => fail (.addressOrigin (.undeclared a))
  | .coordinate query => do
    match (← read).builtins.get? query with
    | some id => return id
    | none => fail (.unimplemented (.undeclaredQuery query))
  | .callee name => do
    match (← read).callees.get? name with
    | some signature => return signature.id
    | none => fail (.unknownFunction name)
  | .instr op type args => do
    let type ← temp ids type
    let operands ← args.mapM (arg ids)
    build (Build.emit op type operands)
  | .math op type args => do
    let type ← temp ids type
    let operands ← args.mapM (arg ids)
    build (Build.emitMath type none op.code operands)

/-- A line that has no value. -/
def effect (ids : List Id) : Effect → Emit Unit
  | .perform op args => do
    let operands ← args.mapM (arg ids)
    build (Build.emitVoid op operands)
  | .define v op type args => do
    let type ← temp ids type
    let operands ← args.mapM (arg ids)
    defineAs v op type operands
  | .defineMath v op type args => do
    let type ← temp ids type
    let operands ← args.mapM (arg ids)
    let result ← resultFor v
    let _ ← build (Build.emitMath type (some result) op.code operands)
    define v result
  | .forward v t => do forward v (← temp ids t)

/-- Lines of a recipe, one after another; the result are the ids of all values. -/
def lines (ids : List Id) : List Line → Emit (List Id)
  | [] => return ids
  | .value e :: rest => do
    let id ← expr ids e
    lines (ids ++ [id]) rest
  | .effect c :: rest => do
    effect ids c
    lines ids rest

/-- What selection sees of a function under assembly. -/
def view (scope : Scope) (symbols : Symbols) : View where
  function := scope.function
  callee? name := (scope.callees.get? name).map Signature.toInterface
  array? a := (symbols.arrays.get? a).map fun slot => (slot.element, slot.region)

/-- Select a recipe and emit it; `given` are the ids of its first values. What was
selected before a failure is emitted before the failure. -/
def recipe {α : Type} (given : List Id) (selection : Select α) : Emit (α × List Id) := do
  match selection (view (← read) (← get).symbols) ⟨[], given.length⟩ with
  | .ok a r => return (a, ← lines given r.lines)
  | .error e r =>
    let _ ← lines given r.lines
    fail e

end Emit

end KernelForge.Codegen
