import KernelForge.Codegen.Flow
import KernelForge.Spirv.Listing

/-!
# Assembly of a module

A module is assembled in stages: its header, then function after function, and the end. Each step
is allowed in certain stages only. A function that fails half way leaves the assembler in the stage
it had reached, where nothing further is allowed.
-/

namespace KernelForge.Codegen

open Lir (Kind)
open Spirv (Id StorageClass)

/-- Names that no function may have. -/
def reservedNames : List String :=
  ["kernel", "__kernel", "global", "__global", "local", "__local", "constant", "__constant",
   "private", "__private", "generic", "__generic", "pipe", "read_only", "write_only", "read_write",
   "__read_only", "__write_only", "__read_write", "image1d_t", "image1d_array_t",
   "image1d_buffer_t", "image2d_t", "image2d_array_t", "image2d_depth_t", "image3d_t", "sampler_t",
   "event_t", "queue_t", "clk_event_t", "reserve_id_t", "ndrange_t", "bool", "char", "uchar",
   "short", "ushort", "int", "uint", "long", "ulong", "half", "float", "double", "void", "size_t",
   "ptrdiff_t", "intptr_t", "uintptr_t", "restrict", "volatile", "const", "static", "extern",
   "inline", "typedef", "struct", "union", "enum", "sizeof", "main"]

def isReservedName (name : String) : Bool := reservedNames.contains name

/-- Fail for a reserved name. -/
def checkName (name : String) : Except Error Unit :=
  if isReservedName name then .error (.reservedName name) else .ok ()

/-- An assembled module. -/
structure Binary where
  name : String
  words : List UInt32
  /-- Names of the kernels, in order. -/
  entryPoints : List String
deriving DecidableEq, Repr, Inhabited

def Binary.bytes (b : Binary) : List UInt8 := Spirv.bytesOfWords b.words

def listing (words : List UInt32) : Except Error String :=
  match Spirv.load words with
  | .ok m => .ok m.listing
  | .error fault => .error (.execution (.malformedModule fault))

def wordsOf (bytes : List UInt8) : Except Error (List UInt32) :=
  match Spirv.wordsOfBytes? bytes with
  | some words => .ok words
  | none => .error (.execution (.partialModule bytes.length))

/-- A module under assembly. -/
structure Assembler where
  name : String
  settings : CodegenSettings := {}
  session : Session := {}
  stage : Stage := .empty
  builtins : Builtins := ∅
  symbols : Symbols := {}
  callees : Table String Signature := ∅
  /-- Kernels assembled so far, in order. -/
  kernels : List (String × Id) := []
  /-- Number of functions assembled so far. -/
  assembled : Nat := 0
deriving Inhabited

abbrev Assemble := EStateM Error Assembler

namespace Emit

/-! ## Storage -/

def privateArray (a : Lir.ArrayDecl) : Emit Unit := do
  let arrayType ← build (Build.arrayOf a.element.storage a.length)
  let pointer ← build (Build.pointerToType arrayType StorageClass.function)
  let id ← build (Build.localVariable pointer)
  modify fun b => { b with symbols := { b.symbols with
    arrays := b.symbols.arrays.insert a.id ⟨id, a.element, a.length, .perItem⟩ } }

/-- Name a result if the settings ask for names. -/
def debugName (id : Id) (text : String) : Emit Unit := do
  if (← read).settings.debugNames then build (Build.name id text)

def valueSlot (v : Lir.ValueId) (k : Kind) : Emit Unit := do
  let pointer ← build (Build.pointerTo k StorageClass.function)
  let slot ← build (Build.localVariable pointer)
  debugName slot ("v" ++ Text.natText v.index.toNat)
  modify fun b => { b with symbols := { b.symbols with slots := b.symbols.slots.insert v slot } }

/-- Declare the private arrays, and in spill mode a slot for each value. -/
def privateStorage : Emit Unit := do
  let f := (← read).function
  (f.arrays.filter fun a => a.region == .perItem).forM privateArray
  if ← spilling then f.values.forM fun (v, k) => valueSlot v k

/-! ## The body of a function -/

def openBlock (id : Id) : Emit Unit := build (Build.place ⟨.label, none, some id, []⟩)

def block (ordinal : Nat) (b : Lir.Block) : Emit Unit := do
  let id ← label b.id
  openBlock id
  debugName id ("B" ++ Text.natText b.id.index.toNat ++ "_kernel" ++ Text.natText ordinal)
  merges b
  (b.ops.drop (leadingMerges b.ops).length).forM op
  terminator b.terminator

def returnBlock : Emit Unit := do
  match (← read).returnBlock with
  | none => return ()
  | some id =>
    openBlock id
    terminate .returnVoid []

/-- Fail for a value that a merge waits for and that was never defined. -/
def checkPending : Emit Unit := do
  match (← get).symbols.pending with
  | [] => return ()
  | first :: _ => fail (.undefinedValue (.neverDefined first))

/-- The first block of a function declares storage, binds parameters and leads to the entry. -/
def prologue (entry : Lir.BlockId) (params : List Id) : Emit Unit := do
  privateStorage
  let _ ← recipe params Select.params
  terminate .branch [.ref (← label entry)]

/-- All blocks of a function, after its prologue. -/
def body (ordinal : Nat) (entry : Lir.BlockId) (params : List Id) : Emit Unit := do
  prologue entry params
  (← read).function.blocks.forM (block ordinal)
  returnBlock
  checkPending

end Emit

namespace Assembler

def new (name : String) (target : Target) (settings : CodegenSettings) : Assembler :=
  { name, settings, session := { target } }

/-- Whether nothing has been emitted. -/
def isEmpty (a : Assembler) : Bool :=
  let m := a.session.draft.module
  m.capabilities.isEmpty && m.globals.isEmpty && m.functions.isEmpty

end Assembler

namespace Assemble

def build {α : Type} (step : Build α) : Assemble α :=
  step.within Assembler.session fun a session => { a with session }

def inFunction {α : Type} (scope : Scope) (steps : Emit α) : Assemble α := fun a =>
  match steps scope ⟨a.session, a.symbols⟩ with
  | .ok x b => .ok x { a with session := b.session, symbols := b.symbols }
  | .error e b => .error e { a with session := b.session, symbols := b.symbols }

/-- Fail unless the assembler is in one of the stages. -/
def expectStage (action : Action) (allowed : List Stage) : Assemble Unit := do
  let stage := (← get).stage
  if stage ∉ allowed then throw (.invalidState action stage)

abbrev enter (stage : Stage) : Assemble Unit := modify fun a => { a with stage }

/-- Emit the header of the module, once. -/
def header : Assemble Unit := do
  expectStage .header [.empty]
  build Build.header
  let builtins ← build Build.declareBuiltins
  modify fun a => { a with builtins, stage := .headerEmitted }

/-- The signature of a function, whose id may be called before its body. -/
def declare (f : Lir.Function) : Assemble Signature := do
  match (← get).callees.get? f.name with
  | some signature => return signature
  | none =>
    expectStage .declare [.headerEmitted, .functionClosed]
    let id ← build Build.fresh
    let signature : Signature := ⟨⟨f.role, f.returnKind, f.params.map Lir.Param.kind⟩, id⟩
    modify fun a => { a with callees := a.callees.insert f.name signature }
    return signature

def groupArray (array : Lir.ArrayDecl) : Assemble Unit := do
  let element := array.element.storage
  let arrayType ← build (Build.arrayOf element array.length)
  let pointer ← build (Build.pointerToType arrayType StorageClass.workgroup)
  let id ← build (Build.globalVariable pointer StorageClass.workgroup)
  build (Build.decorate id 44 [.literal (max element.size 1)])
  modify fun a => { a with symbols := { a.symbols with
    arrays := a.symbols.arrays.insert array.id ⟨id, array.element, array.length, .perGroup⟩ } }

/-- Return type, parameter types and control of a function. -/
def shape (f : Lir.Function) : Build (Id × List Id × Nat) := do
  match f.role with
  | .kernel =>
    let bytePtr ← Build.pointerTo .i8 StorageClass.crossWorkgroup
    let long ← Build.typeOf .i64
    let void ← Build.typeOf .void
    return (void, [bytePtr, long], 0)
  | .device =>
    let ret ← Build.typeOf f.returnKind
    let types ← f.params.mapM fun p => Build.typeOf p.kind
    return (ret, types, 2)

/-- A parameter of the open function. -/
abbrev param (type : Id) : Build Id := do
  let id ← Build.fresh
  Build.place ⟨.functionParameter, some type, some id, []⟩
  return id

/-- The ids of a function and its parameters that have names, with their names. -/
def partNames (f : Lir.Function) (id : Id) (params : List Id) : List (Id × String) :=
  (id, f.name) :: match f.role with
    | .kernel => params.zip ["heap_base", "frame_base"]
    | .device => (f.params.zip params).filterMap fun (p, id) => p.name.map (id, ·)

/-- Name a function and its parameters if the settings ask for names. -/
def debugNames (f : Lir.Function) (id : Id) (params : List Id) : Assemble Unit := do
  if (← get).settings.debugNames then
    build ((partNames f id params).forM fun e => Build.name e.1 e.2)

/-- A kernel is an entry point, any other function is exported. -/
def publish (f : Lir.Function) (id : Id) : Assemble Unit := do
  match f.role with
  | .kernel =>
    let interface := (← get).builtins.values.map Spirv.Operand.ref
    build (Build.place ⟨.entryPoint, none, none,
      [.enumerant .executionModel 6, .ref id, .text f.name] ++ interface⟩)
  | .device => build (Build.decorate id 41 [.text f.name, .enumerant .linkageType 0])

/-- Open a function; the result are the ids of its parameters. -/
def openFunction (f : Lir.Function) (signature : Signature) : Assemble (List Id) := do
  let (ret, types, control) ← build (shape f)
  let functionType ← build (Build.functionType ret types)
  build (Build.place ⟨.function, some ret, some signature.id,
    [.enumerant .functionControl control, .ref functionType]⟩)
  let params ← build (types.mapM param)
  debugNames f signature.id params
  publish f signature.id
  return params

/-- The block void returns lead to, if the settings ask for one. -/
def returnBlock (f : Lir.Function) : Assemble (Option Id) := do
  if (← get).settings.returnLabel && f.returnKind == .void then return some (← build Build.fresh)
  return none

def close (f : Lir.Function) (signature : Signature) : Assemble Unit :=
  modify fun a => { a with
    kernels := if f.isKernel then a.kernels ++ [(f.name, signature.id)] else a.kernels
    assembled := a.assembled + 1
    stage := .functionClosed }

/-- Emit what stands ahead of a body: the arrays, the function and its first label. The result are
the ids of the parameters and of the block void returns lead to. -/
def prepare (f : Lir.Function) (signature : Signature) : Assemble (List Id × Option Id) := do
  modify fun a => { a with symbols := {} }
  (f.arrays.filter fun array => array.region == .perGroup).forM groupArray
  enter .inFunction
  let params ← openFunction f signature
  let first ← build Build.fresh
  build (Build.place ⟨.label, none, some first, []⟩)
  enter .inBlock
  return (params, ← returnBlock f)

/-- Emit a declared function. -/
def define (f : Lir.Function) (entry : Lir.BlockId) (signature : Signature) : Assemble Unit := do
  let (params, target) ← prepare f signature
  let a ← get
  inFunction ⟨a.settings, f, a.builtins, a.callees, target⟩ (Emit.body a.assembled entry params)
  build (Build.place ⟨.functionEnd, none, none, []⟩)
  close f signature

def function (f : Lir.Function) : Assemble Unit := do
  ofExcept (checkName f.name)
  if (← get).stage = .empty then header
  expectStage .openFunction [.headerEmitted, .functionClosed]
  match f.entry? with
  | none => throw (.unimplemented (.noBlocks f.name))
  | some entry =>
    if f.isKernel && f.returnKind != .void then
      throw (.unimplemented (.kernelReturn f.name f.returnKind))
    else define f entry (← declare f)

/-- Mark a kernel so that no operations are contracted. -/
abbrev exactMode (id : Id) : Build Unit :=
  Build.place ⟨.executionMode, none, none, [.ref id, .enumerant .executionMode 31]⟩

/-- Kernels of a module with both other precisions are exact. -/
def exactKernels : Assemble Unit := do
  let a ← get
  if a.session.usesFp64 && a.session.usesFp16 then
    build (a.kernels.forM fun k => exactMode k.2)

def finish : Assemble Binary := do
  expectStage .finish [.functionClosed]
  exactKernels
  enter .done
  let a ← get
  return ⟨a.name, a.session.words, a.kernels.map Prod.fst⟩

def wholeModule (m : Lir.Module) : Assemble Binary := do
  header
  m.functions.forM fun f => discard (declare f)
  m.functions.forM function
  finish

end Assemble

/-- The binary of a module. Names are checked before anything is emitted. -/
def assemble (m : Lir.Module) (target : Target) (settings : CodegenSettings) :
    Except Error Binary := do
  m.functions.forM fun f => checkName f.name
  match Assemble.wholeModule m (Assembler.new m.name target settings) with
  | .ok binary _ => return binary
  | .error e _ => throw e

end KernelForge.Codegen
