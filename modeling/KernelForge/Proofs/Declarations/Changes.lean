import KernelForge.Proofs.Ledger.Draft
import KernelForge.Proofs.Runs
import KernelForge.Proofs.Tables

/-!
# How the declarations of a session change

A request for a type or a constant may fail half way and keeps what it had declared by then. The
relation `Session.Answer` says all that one step of a request can do to a session, and
`Session.Change` adds what other steps can do to its declarations. What every change keeps is kept
by every request, whether it succeeds or fails: first of all that what a session remembers is
declared (`Session.Declares`), that no type is declared twice, and that the ids of its declarations
rise (`Session.Coherent`).
-/

namespace KernelForge.Codegen

open List hiding get modify
open Lir (Kind)
open Spirv
open Capability (float16 float64 int16 int64 int8 vector16)

/-! ## Runs with both outcomes -/

section Ends

variable {ε σ α β : Type}

/-- From a state, a run succeeds with `Q` or fails with `E`. -/
def Ends (x : EStateM ε σ α) (s : σ) (Q : α → σ → Prop) (E : σ → Prop) : Prop :=
  match x s with
  | .ok a s' => Q a s'
  | .error _ s' => E s'

namespace Ends

variable {x : EStateM ε σ α} {f : α → EStateM ε σ β} {s : σ} {Q Q' : α → σ → Prop}
  {E E' : σ → Prop}

theorem bind {P : β → σ → Prop} (hx : Ends x s Q E)
    (hf : ∀ a s', x s = .ok a s' → Q a s' → Ends (f a) s' P E) : Ends (x >>= f) s P E := by
  unfold Ends at hx ⊢
  show match EStateM.bind x f s with | .ok a s' => P a s' | .error _ s' => E s'
  unfold EStateM.bind
  cases hrun : x s with
  | ok a s' =>
    rw [hrun] at hx
    exact hf a s' hrun hx
  | error =>
    rw [hrun] at hx
    exact hx

variable {a : α} {s' : σ}

theorem of_ok (hrun : x s = .ok a s') (h : Q a s') : Ends x s Q E := by
  unfold Ends
  rwa [hrun]

theorem imp (h : Ends x s Q E) (hq : ∀ a s', Q a s' → Q' a s') (he : ∀ s', E s' → E' s') :
    Ends x s Q' E' := by
  unfold Ends at h ⊢
  cases hrun : x s with
  | ok a s' =>
    rw [hrun] at h
    exact hq a s' h
  | error e s' =>
    rw [hrun] at h
    exact he s' h

theorem pure (h : Q a s) : Ends (Pure.pure a : EStateM ε σ α) s Q E := h

theorem throw {e : ε} (h : E s) : Ends (MonadExcept.throw e : EStateM ε σ α) s Q E := h

theorem get {g : σ → EStateM ε σ α} (h : Ends (g s) s Q E) : Ends (MonadState.get >>= g) s Q E := h

variable {g : σ → σ}

theorem note {P : PUnit → σ → Prop} (h : P ⟨⟩ (g s)) :
    Ends (modify g : EStateM ε σ PUnit) s P E := h

theorem remember (h : Q a (g s)) :
    Ends (modify g >>= fun _ => Pure.pure a : EStateM ε σ α) s Q E := h

theorem ofExcept {e : Except ε α} (hok : ∀ a, e = .ok a → Q a s)
    (herror : ∀ e', e = .error e' → E s) : Ends (MonadExcept.ofExcept e : EStateM ε σ α) s Q E := by
  cases e with
  | ok a => exact hok a rfl
  | error e => exact herror e rfl

/-- What is known of a run that succeeded. -/
theorem ok (h : Ends x s Q E) (hrun : x s = .ok a s') : Q a s' := by
  unfold Ends at h
  rwa [hrun] at h

theorem error {e : ε} (h : Ends x s Q E) (hrun : x s = .error e s') : E s' := by
  unfold Ends at h
  rwa [hrun] at h

end Ends

end Ends

/-! ## Declarations -/

/-- A declaration with an opcode and operands stands among the globals. -/
def Session.Declared (s : Session) (op : Opcode) (operands : List Operand) (id : Id) : Prop :=
  ∃ i ∈ s.draft.module.globals, i.opcode = op ∧ i.operands = operands ∧ i.result = some id

/-- Opcode and operands of the type of a kind that is not a vector. -/
def scalarForm : Kind → Option (Opcode × List Operand)
  | .void => some (.typeVoid, [])
  | .bool => some (.typeBool, [])
  | .i8 => some (.typeInt, [.literal 8, .literal 0])
  | .i16 => some (.typeInt, [.literal 16, .literal 0])
  | .i32 => some (.typeInt, [.literal 32, .literal 0])
  | .i64 | .ptr => some (.typeInt, [.literal 64, .literal 0])
  | .f16 => some (.typeFloat, [.literal 16])
  | .f32 => some (.typeFloat, [.literal 32])
  | .f64 => some (.typeFloat, [.literal 64])
  | .vector _ _ => none

def Session.TypeDeclared (s : Session) (id : Id) : Kind → Prop
  | .vector e n => ∃ element, s.types.get? e.kind = some element ∧ n ∈ Kind.lanesAllowed ∧
      s.Declared .typeVector [.ref element, .literal n.toNat] id
  | k => ∃ form, scalarForm k = some form ∧ s.Declared form.1 form.2 id

def Session.ConstantDeclared (s : Session) (text : String) (id : Id) : Kind → Prop
  | .vector e n => ∃ type, ∃ lanes : List Id, s.types.get? (.vector e n) = some type ∧
      lanes.length = n.toNat ∧
      (text.splitOn ",").map (fun part => s.constants.get? (Text.trim part, e.kind))
        = lanes.map some ∧
      ⟨.constantComposite, some type, some id, lanes.map .ref⟩ ∈ s.draft.module.globals
  | k => ∃ type form, s.types.get? k = some type ∧ Build.constantForm text k = .ok form ∧
      ⟨form.1, some type, some id, form.2⟩ ∈ s.draft.module.globals

def Session.ArrayDeclared (s : Session) (k : Kind) (length : UInt32) (id : Id) : Prop :=
  ∃ type count, s.types.get? k = some type ∧
    s.constants.get? (Text.natText length.toNat, .i32) = some count ∧
    s.Declared .typeArray [.ref type, .ref count] id

/-- What a session remembers stands among the globals of its module. -/
structure Session.Declares (s : Session) : Prop where
  types : ∀ k id, s.types.get? k = some id → s.TypeDeclared id k
  pointers : ∀ type storage id, s.pointers.get? (type, storage) = some id →
    s.Declared .typePointer [.enumerant .storageClass storage, .ref type] id
  arrays : ∀ k length id, s.arrays.get? (k, length) = some id → s.ArrayDeclared k length id
  constants : ∀ text k id, s.constants.get? (text, k) = some id → s.ConstantDeclared text id k

/-- A later session remembers what an earlier one did. -/
structure Session.Sees (s s' : Session) : Prop where
  types : ∀ k id, s.types.get? k = some id → s'.types.get? k = some id
  pointers : ∀ k id, s.pointers.get? k = some id → s'.pointers.get? k = some id
  arrays : ∀ k id, s.arrays.get? k = some id → s'.arrays.get? k = some id
  constants : ∀ k id, s.constants.get? k = some id → s'.constants.get? k = some id
  mathImport : ∀ id, s.mathImport = some id → s'.mathImport = some id
  globals : s.draft.module.globals ⊆ s'.draft.module.globals

variable {text : String} {form : Opcode × List Operand}

namespace Session.Sees

variable {s s' s'' : Session}

theorem refl (s : Session) : s.Sees s :=
  ⟨fun _ _ h => h, fun _ _ h => h, fun _ _ h => h, fun _ _ h => h, fun _ h => h, List.Subset.refl _⟩

theorem trans (h : s.Sees s') (h' : s'.Sees s'') : s.Sees s'' where
  types k id hk := h'.types k id (h.types k id hk)
  pointers k id hk := h'.pointers k id (h.pointers k id hk)
  arrays k id hk := h'.arrays k id (h.arrays k id hk)
  constants k id hk := h'.constants k id (h.constants k id hk)
  mathImport id hk := h'.mathImport id (h.mathImport id hk)
  globals := List.Subset.trans h.globals h'.globals

variable {id : Id}

theorem declared (h : s.Sees s') {op : Opcode} {operands : List Operand}
    (hd : s.Declared op operands id) : s'.Declared op operands id := by
  obtain ⟨i, hi, hform⟩ := hd
  exact ⟨i, h.globals hi, hform⟩

variable {k : Kind}

theorem typeDeclared (h : s.Sees s') (hd : s.TypeDeclared id k) : s'.TypeDeclared id k := by
  cases k with
  | vector =>
    obtain ⟨element, helement, hn, hd⟩ := hd
    exact ⟨element, h.types _ _ helement, hn, h.declared hd⟩
  | _ =>
    obtain ⟨form, hform, hd⟩ := hd
    exact ⟨form, hform, h.declared hd⟩

theorem constantDeclared (h : s.Sees s')
    (hd : s.ConstantDeclared text id k) : s'.ConstantDeclared text id k := by
  cases k with
  | vector =>
    obtain ⟨type, lanes, htype, hlen, hlanes, hi⟩ := hd
    exact ⟨type, lanes, h.types _ _ htype, hlen,
      map_some_of (fun _ _ hlane => h.constants _ _ hlane) hlanes, h.globals hi⟩
  | _ =>
    obtain ⟨type, form, htype, hform, hi⟩ := hd
    exact ⟨type, form, h.types _ _ htype, hform, h.globals hi⟩

theorem arrayDeclared (h : s.Sees s') {length : UInt32}
    (hd : s.ArrayDeclared k length id) : s'.ArrayDeclared k length id := by
  obtain ⟨type, count, htype, hcount, hd⟩ := hd
  exact ⟨type, count, h.types _ _ htype, h.constants _ _ hcount, h.declared hd⟩

end Session.Sees

/-! ## Types and what they call for -/

def isType : Opcode → Bool
  | .typeVoid | .typeBool | .typeInt | .typeFloat | .typeVector | .typeArray | .typePointer
  | .typeFunction => true
  | _ => false

def isConstant : Opcode → Bool
  | .constantTrue | .constantFalse | .constant | .constantComposite => true
  | _ => false

theorem isType_of_isConstant {op : Opcode} (h : isConstant op = true) : isType op = false := by
  cases op <;> first | rfl | cases h

/-- A constant of a kind that is not a vector refers to nothing. -/
theorem constantForm_plain {k : Kind} (h : Build.constantForm text k = .ok form) :
    isConstant form.1 = true ∧ refs form.2 = [] := by
  have hparsed : ∀ {α : Type} {e : Except Error α} {g : α → Opcode × List Operand},
      (∀ a, isConstant (g a).1 = true ∧ refs (g a).2 = []) → (do return g (← e)) = .ok form →
      isConstant form.1 = true ∧ refs form.2 = [] := by
    intro α e g hg h
    cases e with
    | error => cases h
    | ok a =>
      cases h
      exact hg a
  cases k with
  | void | vector => cases h
  | bool => exact hparsed (fun b => ⟨by cases b <;> rfl, rfl⟩) h
  | _ => exact hparsed (fun _ => ⟨rfl, rfl⟩) h

/-- The capability that a declared type calls for. -/
def demand : Opcode → List Operand → Option Capability
  | .typeInt, .literal 8 :: _ => some int8
  | .typeInt, .literal 16 :: _ => some int16
  | .typeInt, .literal 64 :: _ => some int64
  | .typeFloat, .literal 16 :: _ => some float16
  | .typeFloat, .literal 64 :: _ => some float64
  | .typeVector, [_, .literal lanes] =>
    if lanes = 8 ∨ lanes = 16 then some vector16 else none
  | .typePointer, .enumerant .storageClass storage :: _ =>
    if storage = StorageClass.generic then some Capability.genericPointer else none
  | _, _ => none

def requirement (c : Capability) : Instruction :=
  ⟨.capability, none, none, [.enumerant .capability c]⟩

/-- A target has the precision that a capability stands for. -/
structure Supports (target : Target) (c : Option Capability) : Prop where
  fp64 : c = some float64 → target.fp64 = true
  fp16 : c = some float16 → target.fp16 = true

namespace Session

/-- The capability asked for, unless it is declared. -/
def missing (s : Session) (c : Option Capability) : List Capability :=
  c.toList.filter (· ∉ s.capabilities)

/-- Declare a capability unless it is. -/
def enable (s : Session) (c : Option Capability) : Session :=
  { s with
    capabilities := s.capabilities ++ s.missing c
    draft := s.draft.onModule fun m =>
      { m with capabilities := m.capabilities ++ (s.missing c).map requirement } }

/-- Declare a type unless it is, with the capability that it calls for. -/
def adopt (s : Session) (op : Opcode) (operands : List Operand) : Session :=
  { s.enable (demand op operands) with
    draft := ((s.enable (demand op operands)).draft.declareType op operands).2
    usesFp64 := s.usesFp64 || demand op operands == some float64
    usesFp16 := s.usesFp16 || demand op operands == some float16 }

def writeConstant (s : Session) (text : String) (k : Kind) (op : Opcode) (type : Id)
    (operands : List Operand) : Session :=
  { s with
    draft := (s.draft.declareValue op type operands).2
    constants := s.constants.insert (text, k) s.draft.next }

def ConstantForm (s : Session) (text : String) (op : Opcode) (type : Id)
    (operands : List Operand) (k : Kind) : Prop :=
  s.types.get? k = some type ∧
  match k with
  | .vector e n => op = .constantComposite ∧ ∃ lanes : List Id, operands = lanes.map .ref ∧
      lanes.length = n.toNat ∧
      (text.splitOn ",").map (fun part => s.constants.get? (Text.trim part, e.kind))
        = lanes.map some
  | k => Build.constantForm text k = .ok (op, operands)

/-- Opcode and operands of a type. A type refers to types and constants that the session
remembers, or to ids that the caller is `known` to have. -/
inductive TypeForm (known : Opcode → Id → Prop) (s : Session) : Opcode → List Operand → Prop where
  | scalar {k : Kind} {form : Opcode × List Operand} (hform : scalarForm k = some form)
      (hsupports : Supports s.target (demand form.1 form.2)) : TypeForm known s form.1 form.2
  | vector {e : Lir.Element} {n : UInt8} {element : Id} (hn : n ∈ Kind.lanesAllowed)
      (helement : s.types.get? e.kind = some element) :
      TypeForm known s .typeVector [.ref element, .literal n.toNat]
  | pointer {pointee : Id} {storage : StorageClass}
      (hpointee : (∃ k, s.types.get? k = some pointee) ∨ known .typePointer pointee) :
      TypeForm known s .typePointer [.enumerant .storageClass storage, .ref pointee]
  | array {k : Kind} {type count : Id} {text : String} (htype : s.types.get? k = some type)
      (hcount : s.constants.get? (text, .i32) = some count) :
      TypeForm known s .typeArray [.ref type, .ref count]
  | function {ret : Id} {params : List Id} (hknown : ∀ id ∈ ret :: params, known .typeFunction id) :
      TypeForm known s .typeFunction (.ref ret :: params.map .ref)

/-- What one step of a request can do to a session. -/
inductive Answer (known : Opcode → Id → Prop) : Session → Session → Prop where
  | adopt {s : Session} {op : Opcode} {operands : List Operand}
      (hform : s.TypeForm known op operands) : Answer known s (s.adopt op operands)
  | constant {s : Session} {text : String} {k : Kind} {op : Opcode} {type : Id}
      {operands : List Operand} (hnew : s.constants.get? (text, k) = none)
      (hform : s.ConstantForm text op type operands k) :
      Answer known s (s.writeConstant text k op type operands)
  | rememberType {s : Session} {k : Kind} {id : Id} (hnew : s.types.get? k = none)
      (hid : s.TypeDeclared id k) : Answer known s { s with types := s.types.insert k id }
  | rememberPointer {s : Session} {type id : Id} {storage : StorageClass}
      (hnew : s.pointers.get? (type, storage) = none)
      (hid : s.Declared .typePointer [.enumerant .storageClass storage, .ref type] id) :
      Answer known s { s with pointers := s.pointers.insert (type, storage) id }
  | rememberArray {s : Session} {k : Kind} {length : UInt32} {id : Id}
      (hnew : s.arrays.get? (k, length) = none) (hid : s.ArrayDeclared k length id) :
      Answer known s { s with arrays := s.arrays.insert (k, length) id }
  | rememberFunction {s : Session} {ret id : Id} {params : List Id}
      (hnew : s.functionTypes.get? (ret, params) = none)
      (hid : s.Declared .typeFunction (.ref ret :: params.map .ref) id) :
      Answer known s { s with functionTypes := s.functionTypes.insert (ret, params) id }

/-- A chain of answers. -/
def Answers (known : Opcode → Id → Prop) : Session → Session → Prop :=
  Relation.ReflTransGen (Answer known)

/-- A step that declares nothing. -/
structure Aside (s s' : Session) : Prop where
  globals : s'.draft.module.globals = s.draft.module.globals
  next : s.draft.next ≤ s'.draft.next
  placed : s'.draft.module.capabilities = s.draft.module.capabilities
  modes : s'.draft.module.executionModes = s.draft.module.executionModes
  target : s'.target = s.target
  capabilities : s'.capabilities = s.capabilities
  types : s'.types = s.types
  pointers : s'.pointers = s.pointers
  arrays : s'.arrays = s.arrays
  functionTypes : s'.functionTypes = s.functionTypes
  constants : s'.constants = s.constants
  usesFp64 : s'.usesFp64 = s.usesFp64
  usesFp16 : s'.usesFp16 = s.usesFp16

/-- What one step can do to the declarations of a session. Capabilities are called for by
a type or are `asked` for. -/
inductive Change (known : Opcode → Id → Prop) (asked : List Capability) :
    Session → Session → Prop where
  | answer {s s' : Session} (h : Answer known s s') : Change known asked s s'
  | aside {s s' : Session} (h : s.Aside s') : Change known asked s s'
  | enable {s : Session} {c : Capability} (h : c ∈ asked) : Change known asked s (s.enable (some c))
  | moduleVariable {s : Session} {type : Id} {storage : StorageClass}
      (htype : (∃ key, s.pointers.get? key = some type) ∨ known .variableDecl type) :
      Change known asked s { s with draft :=
        (s.draft.declareValue .variableDecl type [.enumerant .storageClass storage]).2 }

/-- A chain of changes. -/
def Changes (known : Opcode → Id → Prop) (asked : List Capability) : Session → Session → Prop :=
  Relation.ReflTransGen (Change known asked)

variable {s s' s'' : Session} {i : Instruction} {type : Id}

/-! ## Declaring a capability and a type -/

theorem require_run (s : Session) (c : Capability) :
    Build.require c s = .ok () (s.enable (some c)) := by
  show (if c ∉ s.capabilities then _ else _ : Build Unit) s = _
  by_cases h : c ∈ s.capabilities
  · have hmissing : s.missing (some c) = [] := by simp [missing, h]
    rw [if_neg fun hnot => hnot h]
    unfold enable
    rw [hmissing]
    simp only [map_nil, append_nil]
    rfl
  · have hmissing : s.missing (some c) = [c] := by simp [missing, h]
    rw [if_pos h]
    unfold enable
    rw [hmissing]
    rfl

section Adopt

variable (s : Session) (op : Opcode) (operands : List Operand)

/-- A type that is declared is found again. -/
theorem adopt_of_some {id : Id} (h : s.draft.declared? op operands = some id) :
    s.adopt op operands = { s.enable (demand op operands) with
      usesFp64 := s.usesFp64 || demand op operands == some .float64
      usesFp16 := s.usesFp16 || demand op operands == some .float16 } := by
  have h' : (s.enable (demand op operands)).draft.declared? op operands = some id := h
  simp only [adopt, Draft.declareType, h']

/-- A new type has the next id. -/
theorem adopt_of_none (h : s.draft.declared? op operands = none) :
    (s.adopt op operands).draft.module.globals
        = s.draft.module.globals ++ [⟨op, none, some s.draft.next, operands⟩] ∧
      (s.adopt op operands).draft.next = s.draft.next + 1 := by
  have h' : (s.enable (demand op operands)).draft.declared? op operands = none := h
  simp only [adopt, Draft.declareType, h']
  exact ⟨rfl, rfl⟩

end Adopt

/-- A later session remembers what an earlier one did and declares no less. -/
structure Remembers (s s' : Session) : Prop where
  types : ∀ k id, s.types.get? k = some id → s'.types.get? k = some id
  pointers : ∀ k id, s.pointers.get? k = some id → s'.pointers.get? k = some id
  arrays : ∀ k id, s.arrays.get? k = some id → s'.arrays.get? k = some id
  functionTypes : ∀ k id, s.functionTypes.get? k = some id → s'.functionTypes.get? k = some id
  constants : ∀ k id, s.constants.get? k = some id → s'.constants.get? k = some id
  globals : s.draft.module.globals <+: s'.draft.module.globals
  target : s'.target = s.target
  next : s.draft.next ≤ s'.draft.next

namespace Remembers

theorem refl (s : Session) : s.Remembers s :=
  ⟨fun _ _ h => h, fun _ _ h => h, fun _ _ h => h, fun _ _ h => h, fun _ _ h => h,
    prefix_rfl, rfl, Nat.le_refl _⟩

theorem trans (h : s.Remembers s') (h' : s'.Remembers s'') : s.Remembers s'' where
  types k id hk := h'.types k id (h.types k id hk)
  pointers k id hk := h'.pointers k id (h.pointers k id hk)
  arrays k id hk := h'.arrays k id (h.arrays k id hk)
  functionTypes k id hk := h'.functionTypes k id (h.functionTypes k id hk)
  constants k id hk := h'.constants k id (h.constants k id hk)
  globals := h.globals.trans h'.globals
  target := h'.target.trans h.target
  next := Nat.le_trans h.next h'.next

variable {id : Id}

variable (h : s.Remembers s')

include h

/-- The results of declarations stay. -/
theorem results (hid : id ∈ results s.draft.module.globals) :
    id ∈ Spirv.results s'.draft.module.globals := by
  obtain ⟨i, hi, hresult⟩ := mem_filterMap.1 hid
  exact mem_filterMap.2 ⟨i, h.globals.subset hi, hresult⟩

/-- All but the import of the extended set is seen later. -/
theorem sees : s.Sees { s' with mathImport := s.mathImport } :=
  ⟨h.types, h.pointers, h.arrays, h.constants, fun _ h => h, h.globals.subset⟩

theorem declared {op : Opcode} {operands : List Operand}
    (hd : s.Declared op operands id) : s'.Declared op operands id :=
  h.sees.declared hd

variable {k : Kind}

theorem typeDeclared (hd : s.TypeDeclared id k) : s'.TypeDeclared id k := h.sees.typeDeclared hd

theorem constantDeclared (hd : s.ConstantDeclared text id k) : s'.ConstantDeclared text id k :=
  h.sees.constantDeclared hd

theorem arrayDeclared {length : UInt32}
    (hd : s.ArrayDeclared k length id) : s'.ArrayDeclared k length id :=
  h.sees.arrayDeclared hd

end Remembers

/-! ## Forms of types -/

section Forms

variable {known : Opcode → Id → Prop} {op : Opcode} {operands : List Operand} {id : Id}

theorem TypeForm.isType (h : s.TypeForm known op operands) : isType op = true := by
  cases h with
  | @scalar k form hform =>
    cases k <;> cases hform <;> rfl
  | _ => rfl

/-- Vectors of eight and more lanes call for a capability. -/
theorem demand_vector {n : UInt8} (hn : n ∈ Kind.lanesAllowed) (element : Id) :
    demand .typeVector [.ref element, .literal n.toNat]
      = if 8 ≤ n then some vector16 else none := by
  simp only [Kind.lanesAllowed, mem_cons, not_mem_nil, or_false] at hn
  rcases hn with rfl | rfl | rfl | rfl | rfl <;> rfl

/-- A type calls for no precision that the target lacks. -/
theorem TypeForm.supports (h : s.TypeForm known op operands) :
    Supports s.target (demand op operands) := by
  have hnone : Supports s.target none := ⟨nofun, nofun⟩
  cases h with
  | scalar _ hsupports => exact hsupports
  | vector hn _ =>
    rw [demand_vector hn]
    split
    · exact ⟨fun h => absurd h (by decide), fun h => absurd h (by decide)⟩
    · exact hnone
  | @pointer pointee storage _ =>
    show Supports s.target (if storage = StorageClass.generic then _ else _)
    split
    · exact ⟨fun h => absurd h (by decide), fun h => absurd h (by decide)⟩
    · exact hnone
  | array | function => exact hnone

theorem Declared.mem_globals (h : s.Declared op operands id) :
    id ∈ results s.draft.module.globals := by
  obtain ⟨i, hi, _, _, hr⟩ := h
  exact mem_filterMap.2 ⟨i, hi, hr⟩

variable {k : Kind}

theorem Declares.type_mem (h : s.Declares) (hk : s.types.get? k = some id) :
    id ∈ results s.draft.module.globals := by
  have htype := h.types k id hk
  unfold TypeDeclared at htype
  split at htype
  · obtain ⟨_, _, _, hd⟩ := htype
    exact hd.mem_globals
  · obtain ⟨_, _, hd⟩ := htype
    exact hd.mem_globals

theorem Declares.constant_mem (h : s.Declares) {key : String × Kind}
    (hk : s.constants.get? key = some id) : id ∈ results s.draft.module.globals := by
  have hc := h.constants key.1 key.2 id hk
  unfold ConstantDeclared at hc
  split at hc
  · obtain ⟨_, _, _, _, _, hi⟩ := hc
    exact mem_filterMap.2 ⟨_, hi, rfl⟩
  · obtain ⟨_, _, _, _, hi⟩ := hc
    exact mem_filterMap.2 ⟨_, hi, rfl⟩

/-- A type refers to what the session remembers and to what the caller has. -/
theorem TypeForm.refs_cases (h : s.TypeForm known op operands) (hid : id ∈ refs operands) :
    (∃ k, s.types.get? k = some id) ∨ (∃ key, s.constants.get? key = some id) ∨ known op id := by
  cases h with
  | @scalar k form hform =>
    cases k <;> cases hform <;> cases hid
  | vector hn helement =>
    rw [refs_ref, refs_literal, refs_nil, mem_singleton] at hid
    exact .inl ⟨_, hid ▸ helement⟩
  | pointer hpointee =>
    rw [refs_enumerant, refs_ref, refs_nil, mem_singleton] at hid
    rw [hid]
    exact hpointee.imp_right .inr
  | array htype hcount =>
    rw [refs_ref, refs_ref, refs_nil, mem_cons, mem_singleton] at hid
    rcases hid with rfl | rfl
    · exact .inl ⟨_, htype⟩
    · exact .inr (.inl ⟨_, hcount⟩)
  | function hknown =>
    rw [refs_ref, refs_map_ref] at hid
    exact .inr (.inr (hknown id hid))

/-- A constant refers to its lanes, which the session remembers. -/
theorem ConstantForm.refs_mem
    (h : s.ConstantForm text op type operands k) (hid : id ∈ refs operands) :
    ∃ key, s.constants.get? key = some id := by
  obtain ⟨-, h⟩ := h
  cases k with
  | vector =>
    obtain ⟨-, lanes, rfl, -, hlanes⟩ := h
    rw [refs_map_ref] at hid
    have hmem : some id ∈ lanes.map some := mem_map_of_mem hid
    rw [← hlanes] at hmem
    obtain ⟨part, -, hpart⟩ := mem_map.1 hmem
    exact ⟨_, hpart⟩
  | _ =>
    rw [show refs operands = [] from (constantForm_plain h).2] at hid
    cases hid

end Forms

section Written

variable {op : Opcode} {operands : List Operand}

theorem declared_of_declared? {id : Id} (h : s.draft.declared? op operands = some id) :
    s.Declared op operands id := by
  obtain ⟨i, hfind, hres⟩ := Option.bind_eq_some_iff.1 h
  have hform := List.find?_some hfind
  simp only [Bool.and_eq_true, beq_iff_eq] at hform
  exact ⟨i, mem_of_find?_eq_some hfind, hform.1, hform.2, hres⟩

theorem ConstantForm.isConstant {k : Kind}
    (h : s.ConstantForm text op type operands k) : isConstant op = true := by
  obtain ⟨-, h⟩ := h
  cases k with
  | vector =>
    rw [h.1]
    rfl
  | _ => exact (constantForm_plain h).1

/-- The constant of a text is declared once it is written. -/
theorem ConstantForm.declared {k : Kind}
    (hnew : s.constants.get? (text, k) = none) (h : s.ConstantForm text op type operands k) :
    (s.writeConstant text k op type operands).ConstantDeclared text s.draft.next k := by
  obtain ⟨htype, h⟩ := h
  have hmem : (⟨op, some type, some s.draft.next, operands⟩ : Instruction) ∈
      (s.writeConstant text k op type operands).draft.module.globals :=
    mem_append_right _ (mem_singleton.2 rfl)
  cases k with
  | vector e n =>
    obtain ⟨rfl, lanes, rfl, hlen, hlanes⟩ := h
    refine ⟨type, lanes, htype, hlen, ?_, hmem⟩
    rw [← hlanes]
    refine map_congr_left fun part _ => ?_
    rw [show (s.writeConstant text (.vector e n) .constantComposite type
      (lanes.map .ref)).constants = s.constants.insert (text, .vector e n) s.draft.next from rfl,
      Table.get?_insert, if_neg]
    intro heq
    have hkind : Kind.vector e n = e.kind := congrArg Prod.snd heq
    cases e <;> cases hkind
  | _ => exact ⟨type, (op, operands), htype, h, hmem⟩

end Written

namespace Change

variable {known : Opcode → Id → Prop} {asked : List Capability}

/-- A change forgets nothing. -/
theorem remembers (h : Change known asked s s') : s.Remembers s' := by
  have hsame := Remembers.refl s
  cases h with
  | aside h =>
    refine ⟨?_, ?_, ?_, ?_, ?_, ?_, h.target, h.next⟩
    · rw [h.types]
      exact hsame.types
    · rw [h.pointers]
      exact hsame.pointers
    · rw [h.arrays]
      exact hsame.arrays
    · rw [h.functionTypes]
      exact hsame.functionTypes
    · rw [h.constants]
      exact hsame.constants
    · exact ⟨[], by rw [append_nil, h.globals]⟩
  | enable => exact { hsame with }
  | moduleVariable =>
    exact { hsame with globals := prefix_append _ _, next := Nat.le_succ _ }
  | answer h =>
    cases h with
    | @adopt op operands =>
      cases hfound : s.draft.declared? op operands with
      | some =>
        rw [adopt_of_some s op operands hfound]
        exact { hsame with }
      | none =>
        obtain ⟨hglobals, hnext⟩ := adopt_of_none s op operands hfound
        refine { hsame with globals := ?_, next := ?_ }
        · rw [hglobals]
          exact prefix_append _ _
        · rw [hnext]
          exact Nat.le_succ _
    | constant hnew =>
      exact { hsame with
        globals := prefix_append _ _, next := Nat.le_succ _
        constants := fun k' id' hk' => Table.get?_insert_of_none hnew hk' }
    | rememberType hnew =>
      exact { hsame with types := fun k' id' hk' => Table.get?_insert_of_none hnew hk' }
    | rememberPointer hnew =>
      exact { hsame with pointers := fun k' id' hk' => Table.get?_insert_of_none hnew hk' }
    | rememberArray hnew =>
      exact { hsame with arrays := fun k' id' hk' => Table.get?_insert_of_none hnew hk' }
    | rememberFunction hnew =>
      exact { hsame with functionTypes := fun k' id' hk' => Table.get?_insert_of_none hnew hk' }

/-- After a change, what a session remembers is still declared. -/
theorem declares (h : Change known asked s s') (hs : s.Declares) : s'.Declares := by
  have hr := h.remembers
  have htypes : ∀ k id, s.types.get? k = some id → s'.TypeDeclared id k :=
    fun k id hk => hr.typeDeclared (hs.types k id hk)
  have hpointers : ∀ type storage id, s.pointers.get? (type, storage) = some id →
      s'.Declared .typePointer [.enumerant .storageClass storage, .ref type] id :=
    fun type storage id hk => hr.declared (hs.pointers type storage id hk)
  have harrays : ∀ k length id, s.arrays.get? (k, length) = some id →
      s'.ArrayDeclared k length id :=
    fun k length id hk => hr.arrayDeclared (hs.arrays k length id hk)
  have hconstants : ∀ text k id, s.constants.get? (text, k) = some id →
      s'.ConstantDeclared text id k :=
    fun text k id hk => hr.constantDeclared (hs.constants text k id hk)
  cases h with
  | aside h =>
    refine ⟨?_, ?_, ?_, ?_⟩
    · rwa [h.types]
    · rwa [h.pointers]
    · rwa [h.arrays]
    · rwa [h.constants]
  | enable | moduleVariable => exact ⟨htypes, hpointers, harrays, hconstants⟩
  | answer h =>
    cases h with
    | constant hnew hform =>
      refine ⟨htypes, hpointers, harrays, fun text' k' id' hk' => ?_⟩
      rcases Table.get?_insert_cases hk' with ⟨heq, rfl⟩ | hk'
      · cases heq
        exact hform.declared hnew
      · exact hconstants text' k' id' hk'
    | rememberType hnew hid =>
      refine ⟨fun k' id' hk' => ?_, hpointers, harrays, hconstants⟩
      rcases Table.get?_insert_cases hk' with ⟨rfl, rfl⟩ | hk'
      · exact hr.typeDeclared hid
      · exact htypes k' id' hk'
    | rememberPointer hnew hid =>
      refine ⟨htypes, fun type' storage' id' hk' => ?_, harrays, hconstants⟩
      rcases Table.get?_insert_cases hk' with ⟨heq, rfl⟩ | hk'
      · cases heq
        exact hr.declared hid
      · exact hpointers type' storage' id' hk'
    | rememberArray hnew hid =>
      refine ⟨htypes, hpointers, fun k' length' id' hk' => ?_, hconstants⟩
      rcases Table.get?_insert_cases hk' with ⟨heq, rfl⟩ | hk'
      · cases heq
        exact hr.arrayDeclared hid
      · exact harrays k' length' id' hk'
    | adopt | rememberFunction => exact ⟨htypes, hpointers, harrays, hconstants⟩

/-- No change adds an execution mode. -/
theorem modes (h : Change known asked s s') :
    s'.draft.module.executionModes = s.draft.module.executionModes := by
  cases h with
  | answer h =>
    cases h with
    | @adopt =>
      unfold Session.adopt Draft.declareType
      split <;> rfl
    | _ => rfl
  | aside h => exact h.modes
  | _ => rfl

end Change

/-! ## Coherent sessions -/

/-- The opcodes and operands of the types among declarations. -/
def typeForms (l : List Instruction) : List (Opcode × List Operand) :=
  (l.filter fun i => isType i.opcode).map fun i => (i.opcode, i.operands)

theorem typeForms_append (l l' : List Instruction) :
    typeForms (l ++ l') = typeForms l ++ typeForms l' := by
  unfold typeForms
  rw [filter_append, map_append]

theorem typeForms_of_type (h : isType i.opcode = true) :
    typeForms [i] = [(i.opcode, i.operands)] := by
  simp [typeForms, h]

theorem typeForms_of_value (h : isType i.opcode = false) : typeForms [i] = [] := by
  simp [typeForms, h]

/-- No type is declared twice, and the ids of declarations rise up to the next one. -/
structure Ordered (l : List Instruction) (next : Id) : Prop where
  once : (typeForms l).Nodup
  rising : (results l ++ [next]).Pairwise (· < ·)
  complete : ∀ i ∈ l, i.result.isSome

namespace Ordered

variable {l : List Instruction} {next next' : Id}

theorem later (h : Ordered l next) (hle : next ≤ next') : Ordered l next' := by
  refine ⟨h.once, ?_, h.complete⟩
  obtain ⟨hl, hone, hlt⟩ := pairwise_append.1 h.rising
  refine pairwise_append.2 ⟨hl, pairwise_singleton _ _, fun id hid id' hid' => ?_⟩
  rw [mem_singleton.1 hid']
  exact Nat.lt_of_lt_of_le (hlt id hid next (mem_singleton.2 rfl)) hle

theorem lt_next (h : Ordered l next) {id : Id} (hid : id ∈ results l) : id < next :=
  (pairwise_append.1 h.rising).2.2 id hid next (mem_singleton.2 rfl)

/-- A new declaration has the next id. -/
theorem declare (h : Ordered l next) (hresult : i.result = some next)
    (hnew : isType i.opcode = true → (i.opcode, i.operands) ∉ typeForms l) :
    Ordered (l ++ [i]) (next + 1) := by
  have hresults : results (l ++ [i]) = results l ++ [next] := by
    simp [results, hresult]
  refine ⟨?_, ?_, ?_⟩
  · rw [typeForms_append]
    cases htype : isType i.opcode with
    | true =>
      rw [typeForms_of_type htype]
      refine nodup_append.2 ⟨h.once, by simp, fun form hform form' hform' => ?_⟩
      rintro rfl
      rw [mem_singleton.1 hform'] at hform
      exact hnew htype hform
    | false =>
      rw [typeForms_of_value htype, append_nil]
      exact h.once
  · rw [hresults]
    refine pairwise_append.2 ⟨h.rising, pairwise_singleton _ _, fun id hid id' hid' => ?_⟩
    rw [mem_singleton.1 hid']
    rcases mem_append.1 hid with hid | hid
    · exact Nat.lt_succ_of_lt (h.lt_next hid)
    · rw [mem_singleton.1 hid]
      exact Nat.lt_succ_self _
  · exact forall_mem_append.2 ⟨h.complete, forall_mem_singleton.2 (hresult ▸ rfl)⟩

/-- Where a type is not found, no declaration has its form. -/
theorem not_mem_typeForms {d : Draft} (h : Ordered d.module.globals next) {op : Opcode}
    {operands : List Operand} (hnone : d.declared? op operands = none) :
    (op, operands) ∉ typeForms d.module.globals := by
  intro hmem
  obtain ⟨i, hi, heq⟩ := mem_map.1 hmem
  have hglobal := (mem_filter.1 hi).1
  cases heq
  rw [Draft.declared?, Option.bind_eq_none_iff] at hnone
  cases hfind : d.module.globals.find?
      fun j => j.opcode == i.opcode && j.operands == i.operands with
  | none =>
    have hfalse := List.find?_eq_none.1 hfind i hglobal
    simp at hfalse
  | some j =>
    have hsome := h.complete j (mem_of_find?_eq_some hfind)
    rw [hnone j hfind] at hsome
    cases hsome

/-- Two declarations of one type are one. -/
theorem eq_of_form (h : Ordered l next) {j : Instruction} (hi : i ∈ l) (hj : j ∈ l)
    (htype : isType i.opcode = true) (hop : i.opcode = j.opcode)
    (hoperands : i.operands = j.operands) :
    i = j := by
  refine inj_on_of_nodup_map h.once (mem_filter.2 ⟨hi, htype⟩) (mem_filter.2 ⟨hj, hop ▸ htype⟩) ?_
  rw [hop, hoperands]

end Ordered

/-- What a session remembers is declared, and its declarations are ordered. -/
structure Coherent (s : Session) : Prop where
  declares : s.Declares
  ordered : Ordered s.draft.module.globals s.draft.next

section Chains

variable {known : Opcode → Id → Prop} {asked : List Capability}

theorem Change.ordered (h : Change known asked s s')
    (hs : Ordered s.draft.module.globals s.draft.next) :
    Ordered s'.draft.module.globals s'.draft.next := by
  cases h with
  | aside h =>
    rw [h.globals]
    exact hs.later h.next
  | enable => exact hs
  | moduleVariable htype => exact hs.declare rfl fun htype => by cases htype
  | answer h =>
    cases h with
    | @adopt op operands =>
      cases hfound : s.draft.declared? op operands with
      | some =>
        rw [adopt_of_some s op operands hfound]
        exact hs
      | none =>
        obtain ⟨hglobals, hnext⟩ := adopt_of_none s op operands hfound
        rw [hglobals, hnext]
        exact hs.declare rfl fun _ => hs.not_mem_typeForms hfound
    | @constant text k op type operands hnew hform =>
      refine hs.declare rfl fun htype => ?_
      rw [isType_of_isConstant (hform.isConstant)] at htype
      cases htype
    | _ => exact hs

/-- A change keeps a session coherent. -/
theorem Change.coherent (h : Change known asked s s') (hs : s.Coherent) : s'.Coherent :=
  ⟨h.declares hs.declares, h.ordered hs.ordered⟩

namespace Changes

variable (h : s.Changes known asked s')

include h

theorem add (h' : Change known asked s' s'') : s.Changes known asked s'' := .tail h h'

/-- No chain of changes forgets anything. -/
theorem remembers : s.Remembers s' := by
  induction h with
  | refl => exact .refl s
  | tail _ h ih => exact ih.trans h.remembers

/-- A chain of changes keeps a session coherent. -/
theorem coherent (hs : s.Coherent) : s'.Coherent := by
  induction h with
  | refl => exact hs
  | tail _ h ih => exact h.coherent ih

theorem modes : s'.draft.module.executionModes = s.draft.module.executionModes := by
  induction h with
  | refl => rfl
  | tail _ h ih => exact h.modes.trans ih

end Changes

namespace Answers

theorem add (h : s.Answers known s') (h' : Answer known s' s'') : s.Answers known s'' := .tail h h'

theorem changes (h : s.Answers known s') : s.Changes known asked s' := by
  induction h with
  | refl => exact .refl
  | tail _ h ih => exact ih.add (.answer h)

theorem remembers (h : s.Answers known s') : s.Remembers s' := by
  have hchanges : s.Changes known [] s' := h.changes
  exact hchanges.remembers

end Answers

end Chains

end Session

end KernelForge.Codegen
