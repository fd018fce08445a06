import KernelForge.Codegen.Literal
import KernelForge.Settings
import KernelForge.Target

/-!
# Declarations of one module

A session owns the draft of one module and remembers what it has declared: capabilities, types,
pointer, array and function types, and constants by their text and kind. Each is declared once.
Steps are `Build` actions; a step that fails keeps what it had declared.
-/

namespace KernelForge.Codegen

open Lir (Kind)
open Spirv (Id Opcode Operand Instruction Draft StructureFault StorageClass Capability)

/-- Declarations of one module. -/
structure Session where
  draft : Draft := {}
  target : Target := {}
  /-- Declared capabilities, in order. -/
  capabilities : List Capability := []
  types : Table Kind Id := ∅
  pointers : Table (Id × StorageClass) Id := ∅
  arrays : Table (Kind × UInt32) Id := ∅
  functionTypes : Table (Id × List Id) Id := ∅
  constants : Table (String × Kind) Id := ∅
  /-- Where the extended set is imported. -/
  mathImport : Option Id := none
  usesFp64 : Bool := false
  usesFp16 : Bool := false
deriving Inhabited

abbrev Build := EStateM Error Session

namespace Build

/-! ## The draft -/

def fresh : Build Id :=
  modifyGet fun s => (s.draft.next, { s with draft := s.draft.fresh.2 })

/-- Change the draft, or fail as the draft does. -/
def onDraft (f : Draft → Except StructureFault Draft) : Build Unit := do
  match f (← get).draft with
  | .error fault => throw (.builder fault)
  | .ok draft => modify fun s => { s with draft }

def place (i : Instruction) : Build Unit := onDraft (·.place i)

/-- Put an instruction at the end of the open block. -/
def append (i : Instruction) : Build Unit := onDraft (·.append i)

def declareType (op : Opcode) (operands : List Operand) : Build Id :=
  modifyGet fun s =>
    let (id, draft) := s.draft.declareType op operands
    (id, { s with draft })

/-- A new constant or module variable. -/
def declareValue (op : Opcode) (type : Id) (operands : List Operand) : Build Id :=
  modifyGet fun s =>
    let (id, draft) := s.draft.declareValue op type operands
    (id, { s with draft })

/-- Declare a capability once. -/
def require (c : Capability) : Build Unit := do
  if c ∉ (← get).capabilities then
    modify fun s => { s with capabilities := s.capabilities ++ [c] }
    place ⟨.capability, none, none, [.enumerant .capability c]⟩

/-- Capabilities, the extended set and the memory model. -/
def header : Build Unit := do
  modify fun s => { s with draft := s.draft.onModule fun m => { m with version := ⟨1, 2⟩ } }
  require Capability.addresses
  require Capability.linkage
  require Capability.kernel
  let id ← fresh
  place ⟨.extInstImport, none, some id, [.text Spirv.mathSetName]⟩
  modify fun s => { s with mathImport := some id }
  place ⟨.memoryModel, none, none, [.enumerant .addressingModel 2, .enumerant .memoryModel 2]⟩

/-! ## Types -/

/-- Fail for a precision the target lacks. -/
def checkPrecision (k : Kind) : Build Unit := do
  let target := (← get).target
  if (k = .f64 ∧ target.fp64 = false) ∨ (k = .f16 ∧ target.fp16 = false) then
    throw (.unsupportedPrecision k)

abbrev intType (width : Nat) : Build Id := declareType .typeInt [.literal width, .literal 0]

abbrev floatType (width : Nat) : Build Id := declareType .typeFloat [.literal width]

/-- Declare the type of a kind that is not a vector. -/
def declareScalar : Kind → Build Id
  | .void => declareType .typeVoid []
  | .bool => declareType .typeBool []
  | .i8 => do require Capability.int8; intType 8
  | .i16 => do require Capability.int16; intType 16
  | .i32 => intType 32
  | .i64 | .ptr => do require Capability.int64; intType 64
  | .f16 => do
    checkPrecision .f16
    require Capability.float16
    modify fun s => { s with usesFp16 := true }
    floatType 16
  | .f32 => floatType 32
  | .f64 => do
    checkPrecision .f64
    require Capability.float64
    modify fun s => { s with usesFp64 := true }
    floatType 64
  | k => throw (.unsupportedKind (.vector k))

def scalarType (k : Kind) : Build Id := do
  match (← get).types.get? k with
  | some id => return id
  | none =>
    let id ← declareScalar k
    modify fun s => { s with types := s.types.insert k id }
    return id

def typeOf (k : Kind) : Build Id := do
  match k with
  | .vector element lanes =>
    match (← get).types.get? k with
    | some id => return id
    | none =>
      if lanes ∉ Kind.lanesAllowed then throw (.unsupportedKind (.vector k))
      let element ← scalarType element.kind
      if 8 ≤ lanes then require Capability.vector16
      let id ← declareType .typeVector [.ref element, .literal lanes.toNat]
      modify fun s => { s with types := s.types.insert k id }
      return id
  | k => scalarType k

def pointerToType (pointee : Id) (storage : StorageClass) : Build Id := do
  match (← get).pointers.get? (pointee, storage) with
  | some id => return id
  | none =>
    if storage = StorageClass.generic then require Capability.genericPointer
    let id ← declareType .typePointer [.enumerant .storageClass storage, .ref pointee]
    modify fun s => { s with pointers := s.pointers.insert (pointee, storage) id }
    return id

abbrev pointerTo (k : Kind) (storage : StorageClass) : Build Id := do
  pointerToType (← typeOf k) storage

def functionType (ret : Id) (params : List Id) : Build Id := do
  match (← get).functionTypes.get? (ret, params) with
  | some id => return id
  | none =>
    let id ← declareType .typeFunction (.ref ret :: params.map .ref)
    modify fun s => { s with functionTypes := s.functionTypes.insert (ret, params) id }
    return id

/-! ## Constants -/

def constantForm (value : String) (k : Kind) : Except Error (Opcode × List Operand) := do
  match k with
  | .bool => return (if ← parseBool value then .constantTrue else .constantFalse, [])
  | .i8 | .i16 | .i32 => return (.constant, [.literal (← parseInt value k)])
  | .i64 | .ptr => return (.constant, [.long (← parseInt value k)])
  | .f16 => return (.constant, [.literal (Binary.doubleToHalf (← parseFloat value k))])
  | .f32 => return (.constant, [.literal (Binary.convert .double .single (← parseFloat value k))])
  | .f64 => return (.constant, [.long (← parseFloat value k)])
  | .void => throw (.unsupportedKind .voidConstant)
  | .vector _ _ => throw (.invalidLiteral value k)

/-- Declare a constant of a kind that is not a vector. -/
abbrev declareConstant (value : String) (k : Kind) (type : Id) : Build Id := do
  let (op, operands) ← ofExcept (constantForm value k)
  declareValue op type operands

def scalarConstant (value : String) (k : Kind) : Build Id := do
  match (← get).constants.get? (value, k) with
  | some id => return id
  | none =>
    let type ← typeOf k
    let id ← declareConstant value k type
    modify fun s => { s with constants := s.constants.insert (value, k) id }
    return id

/-- The constant of a text at a kind; the lanes of a vector are separated by
commas. -/
def constant (value : String) (k : Kind) : Build Id := do
  match k with
  | .vector element lanes =>
    match (← get).constants.get? (value, k) with
    | some id => return id
    | none =>
      let type ← typeOf k
      let parts := value.splitOn ","
      if parts.length ≠ lanes.toNat then throw (.invalidLiteral value k)
      let ids ← parts.mapM fun part => scalarConstant (Text.trim part) element.kind
      let id ← declareValue .constantComposite type (ids.map .ref)
      modify fun s => { s with constants := s.constants.insert (value, k) id }
      return id
  | k => scalarConstant value k

def arrayOf (element : Kind) (length : UInt32) : Build Id := do
  match (← get).arrays.get? (element, length) with
  | some id => return id
  | none =>
    let type ← typeOf element
    let count ← constant (Text.natText length.toNat) .i32
    let id ← declareType .typeArray [.ref type, .ref count]
    modify fun s => { s with arrays := s.arrays.insert (element, length) id }
    return id

/-! ## Instructions -/

/-- Append an instruction whose result has a chosen id. -/
abbrev emitAs (op : Opcode) (type id : Id) (operands : List Operand) : Build Unit :=
  append ⟨op, some type, some id, operands⟩

/-- Append an instruction whose result has a new id. -/
abbrev emit (op : Opcode) (type : Id) (operands : List Operand) : Build Id := do
  let id ← fresh
  emitAs op type id operands
  return id

/-- Append an instruction without a result. -/
abbrev emitVoid (op : Opcode) (operands : List Operand) : Build Unit :=
  append ⟨op, none, none, operands⟩

def importedSet : Build Id := do
  match (← get).mathImport with
  | some id => return id
  | none => throw (.invalidState .extended .empty)

/-- Append an extended instruction whose result has a chosen id or a new one. -/
def emitMath (type : Id) (id : Option Id) (number : Nat) (operands : List Operand) :
    Build Id := do
  let set ← importedSet
  let id ← match id with
    | some id => pure id
    | none => fresh
  emitAs .extInst type id (.ref set :: .extInst number :: operands)
  return id

abbrev globalVariable (pointerType : Id) (storage : StorageClass) : Build Id :=
  declareValue .variableDecl pointerType [.enumerant .storageClass storage]

/-- A variable of the open function. -/
abbrev localVariable (pointerType : Id) : Build Id :=
  emit .variableDecl pointerType [.enumerant .storageClass StorageClass.function]

def name (target : Id) (text : String) : Build Unit :=
  place ⟨.name, none, none, [.ref target, .text text]⟩

/-- Annotate a result. -/
abbrev decorate (target : Id) (decoration : Nat) (operands : List Operand) : Build Unit :=
  place ⟨.decorate, none, none, .ref target :: .enumerant .decoration decoration :: operands⟩

end Build

/-- A step of a session, taken by what holds the session. -/
def Build.within {σ α : Type} (session : σ → Session) (put : σ → Session → σ) (step : Build α) :
    EStateM Error σ α := fun s =>
  match step (session s) with
  | .ok a t => .ok a (put s t)
  | .error e t => .error e (put s t)

def Session.words (s : Session) : List UInt32 := s.draft.finish.words

end KernelForge.Codegen
