import KernelForge.Proofs.Declarations.Requests

/-!
# What a session declares is declared once

A session answers requests in any order, and some of them fail half way. Whatever was asked before:
a request that succeeded once has the same answer ever after and changes nothing more, no type is
declared twice, and the constants are those that the session remembers, one for each text and kind.
A declaration mentions earlier ones only, as long as the ids that a caller hands in are declared.
-/

namespace KernelForge.Codegen

open List hiding modify
open Lir (Kind)
open Spirv

/-! ## Requests and other steps -/

/-- The state that a run leaves, whether it succeeds or fails. -/
def left {ε σ α : Type} (x : EStateM ε σ α) (s : σ) : σ :=
  match x s with
  | .ok _ s' => s'
  | .error _ s' => s'

theorem Ends.left {ε σ α : Type} {x : EStateM ε σ α} {s : σ} {P : σ → Prop}
    (h : Ends x s (fun _ => P) P) : P (left x s) := by
  unfold Ends at h
  unfold Codegen.left
  cases hrun : x s with
  | ok | error =>
    rw [hrun] at h
    exact h

namespace Build

variable {s s' : Session} {id : Id}

theorem typeOf_again {k : Kind} (h : s.types.get? k = some id) : typeOf k s = .ok id s := by
  cases k <;>
  · refine bind_ok.2 ⟨s, s, rfl, ?_⟩
    rw [h]
    rfl

theorem pointerToType_again {pointee : Id} {storage : StorageClass}
    (h : s.pointers.get? (pointee, storage) = some id) :
    pointerToType pointee storage s = .ok id s := by
  refine bind_ok.2 ⟨s, s, rfl, ?_⟩
  rw [h]
  rfl

theorem constant_again {text : String} {k : Kind} (h : s.constants.get? (text, k) = some id) :
    constant text k s = .ok id s := by
  cases k <;>
  · refine bind_ok.2 ⟨s, s, rfl, ?_⟩
    rw [h]
    rfl

end Build

/-- Requests for types and constants. -/
inductive Request where
  | typeOf (k : Kind)
  | pointerTo (k : Kind) (storage : StorageClass)
  | pointerToType (pointee : Id) (storage : StorageClass)
  | arrayOf (k : Kind) (length : UInt32)
  | functionType (ret : Id) (params : List Id)
  | constant (text : String) (k : Kind)

variable {r : Request}

namespace Request

def run : Request → Build Id
  | typeOf k => Build.typeOf k
  | pointerTo k storage => Build.pointerTo k storage
  | pointerToType pointee storage => Build.pointerToType pointee storage
  | arrayOf k length => Build.arrayOf k length
  | functionType ret params => Build.functionType ret params
  | constant text k => Build.constant text k

/-- The ids that the caller hands in. -/
def given : Request → List Id
  | pointerToType pointee _ => [pointee]
  | functionType ret params => ret :: params
  | _ => []

def Answered (s : Session) (id : Id) : Request → Prop
  | typeOf k => s.types.get? k = some id
  | pointerTo k storage =>
    ∃ type, s.types.get? k = some type ∧ s.pointers.get? (type, storage) = some id
  | pointerToType pointee storage => s.pointers.get? (pointee, storage) = some id
  | arrayOf k length => s.arrays.get? (k, length) = some id
  | functionType ret params => s.functionTypes.get? (ret, params) = some id
  | constant text k => s.constants.get? (text, k) = some id

variable {s s' t : Session} {id : Id}

/-- A request is a chain of answers, and the session remembers what it was asked for. -/
theorem asks (r : Request) (known : Opcode → Id → Prop)
    (h : ∀ op, op ≠ .variableDecl → ∀ id ∈ r.given, known op id) :
    Build.Asks r.run known fun _ id s' => r.Answered s' id := by
  intro s
  cases r with
  | typeOf k => exact (Build.typeOf_asks k s).imp (fun _ _ h => ⟨h.1, h.2.2⟩) fun _ h => h
  | pointerTo k storage => exact Build.pointerTo_asks k storage s
  | pointerToType pointee storage =>
    exact Build.pointerToType_asks storage (h .typePointer nofun _ (mem_singleton.2 rfl)) s
  | arrayOf k length => exact Build.arrayOf_asks k length s
  | functionType => exact Build.functionType_asks (h .typeFunction nofun) s
  | constant text k =>
      exact (Build.constant_asks text k s).imp (fun _ _ h => ⟨h.1, h.2.2⟩) fun _ h => h

theorem answered (h : r.run s = .ok id s') : r.Answered s' id :=
  ((r.asks (fun _ _ => True) (fun _ _ _ _ => trivial) s).ok h).2

/-- A later session still knows the answer. -/
theorem Answered.later (h : r.Answered s id) (hr : s.Remembers t) : r.Answered t id := by
  cases r with
  | typeOf => exact hr.types _ _ h
  | pointerTo =>
    obtain ⟨type, htype, hpointer⟩ := h
    exact ⟨type, hr.types _ _ htype, hr.pointers _ _ hpointer⟩
  | pointerToType => exact hr.pointers _ _ h
  | arrayOf => exact hr.arrays _ _ h
  | functionType => exact hr.functionTypes _ _ h
  | constant => exact hr.constants _ _ h

/-- A remembered answer is given again and nothing is declared. -/
theorem Answered.run (h : r.Answered s id) : r.run s = .ok id s := by
  cases r with
  | typeOf => exact Build.typeOf_again h
  | pointerTo =>
    obtain ⟨type, htype, hpointer⟩ := h
    exact bind_ok.2 ⟨type, s, Build.typeOf_again htype, Build.pointerToType_again hpointer⟩
  | pointerToType => exact Build.pointerToType_again h
  | arrayOf k length =>
    refine bind_ok.2 ⟨s, s, rfl, ?_⟩
    rw [show s.arrays.get? (k, length) = some id from h]
    rfl
  | functionType ret params =>
    refine bind_ok.2 ⟨s, s, rfl, ?_⟩
    rw [show s.functionTypes.get? (ret, params) = some id from h]
    rfl
  | constant => exact Build.constant_again h

end Request

/-! ## Histories -/

/-- Steps that a caller may take with a session. -/
inductive Call where
  | request (r : Request)
  | header
  | fresh
  | require (c : Capability)
  | globalVariable (type : Id) (storage : StorageClass)
  /-- Put an instruction at the end of the open block. -/
  | append (i : Instruction)
  /-- Name or annotate a result, or open, end or close a part of a function. -/
  | place (i : Instruction) (h : Build.isInner i.opcode = true)

namespace Call

/-- The ids that the caller hands in for declarations. -/
def given : Call → List Id
  | request r => r.given
  | globalVariable type _ => [type]
  | _ => []

/-- The session after a step, whether it succeeded or failed. -/
def after (s : Session) : Call → Session
  | request r => left r.run s
  | header => left Build.header s
  | fresh => left Build.fresh s
  | require c => left (Build.require c) s
  | globalVariable type storage => left (Build.globalVariable type storage) s
  | append i => left (Build.append i) s
  | place i _ => left (Build.place i) s

/-- The capabilities that a step asks for on its own. -/
def asked : Call → List Capability
  | header => [Capability.addresses, Capability.linkage, Capability.kernel]
  | require c => [c]
  | _ => []

end Call

namespace Session

def replay (s : Session) (calls : List Call) : Session := calls.foldl Call.after s

/-- Every id that a caller hands in is the result of a declaration at that time. -/
def Grounded (s : Session) : List Call → Prop
  | [] => True
  | c :: calls => (∀ id ∈ c.given, id ∈ results s.draft.module.globals) ∧
      Grounded (c.after s) calls

instance decidableGrounded : ∀ (s : Session) (calls : List Call), Decidable (s.Grounded calls)
  | _, [] => inferInstanceAs (Decidable True)
  | s, c :: calls =>
    have := decidableGrounded (c.after s) calls
    inferInstanceAs (Decidable ((∀ id ∈ c.given, id ∈ results s.draft.module.globals) ∧
      Grounded (c.after s) calls))

theorem empty_coherent (target : Target) : ({ target } : Session).Coherent where
  declares := ⟨nofun, nofun, nofun, nofun⟩
  ordered := ⟨nodup_nil, pairwise_singleton _ _, forall_mem_nil _⟩

end Session

variable {s s' t : Session}

open Session

variable {known : Opcode → Id → Prop} {op : Opcode}

theorem Build.header_changes (s : Session) :
    s.Changes known Call.header.asked (left Build.header s) := by
  let s₁ : Session :=
    { s with draft := s.draft.onModule fun m => { m with version := ⟨1, 2⟩ } }
  let s₂ := ((s₁.enable (some .addresses)).enable (some .linkage)).enable (some .kernel)
  have hrun : Build.header s = (do
      let id ← Build.fresh
      Build.place ⟨.extInstImport, none, some id, [.text Spirv.mathSetName]⟩
      modify fun s => { s with mathImport := some id }
      Build.place ⟨.memoryModel, none, none,
        [.enumerant .addressingModel 2, .enumerant .memoryModel 2]⟩ : Build Unit) s₂ := by
    refine (bind_of_ok (show (modify _ : Build PUnit) s = .ok ⟨⟩ s₁ from rfl)).trans ?_
    refine (bind_of_ok (require_run _ _)).trans ?_
    refine (bind_of_ok (require_run _ _)).trans ?_
    exact bind_of_ok (require_run _ _)
  have haside : ∀ {t t' : Session}, t.Aside t' → t.Changes known Call.header.asked t' :=
    fun h => .single (.aside h)
  have hversion : s.Changes known Call.header.asked s₁ :=
    haside ⟨rfl, Nat.le_refl _, rfl, rfl, rfl, rfl, rfl, rfl, rfl, rfl, rfl, rfl, rfl⟩
  have henabled : s.Changes known Call.header.asked s₂ :=
    ((hversion.add (.enable (by decide))).add (.enable (by decide))).add (.enable (by decide))
  unfold left
  rw [hrun]
  exact henabled.trans
    (haside ⟨rfl, Nat.le_succ _, rfl, rfl, rfl, rfl, rfl, rfl, rfl, rfl, rfl, rfl, rfl⟩)

/-- A step is a chain of changes, whether it succeeds or fails. -/
theorem Call.changes {c : Call} (h : ∀ op, op ≠ .variableDecl → ∀ id ∈ c.given, known op id)
    (hvariable : ∀ type storage, c = .globalVariable type storage →
      (∃ key, s.pointers.get? key = some type) ∨ known .variableDecl type) :
    s.Changes known c.asked (c.after s) := by
  cases c with
  | request r => exact ((r.asks _ h s).imp (fun _ _ h => h.1.changes) fun _ h => h.changes).left
  | header => exact Build.header_changes s
  | fresh => exact .single (.aside (Build.fresh_beside s).left)
  | require c =>
    show s.Changes _ _ (left (Build.require c) s)
    unfold left
    rw [require_run]
    exact .single (.enable (mem_singleton.2 rfl))
  | globalVariable type storage => exact .single (.moduleVariable (hvariable type storage rfl))
  | append i => exact .single (.aside (Build.append_beside i s).left)
  | place i hi => exact .single (.aside (Build.place_beside hi s).left)

theorem Call.changes_given (s : Session) (c : Call) :
    s.Changes (fun _ => (· ∈ c.given)) c.asked (c.after s) :=
  changes (fun _ _ _ h => h) fun _ _ hc => .inr (hc ▸ mem_singleton.2 rfl)

/-- A request that succeeds leads on. -/
theorem Request.kept {id : Id} (hs : s.Coherent) (h : r.run s = .ok id s') :
    s'.Coherent ∧ s.Remembers s' := by
  have hchanges : s.Changes _ [] s' :=
    ((r.asks (fun _ => (· ∈ r.given)) (fun _ _ _ h => h) s).ok h).1.changes
  exact ⟨hchanges.coherent hs, hchanges.remembers⟩

/-- A history keeps a session coherent and forgets nothing. -/
theorem replay_kept (hs : s.Coherent) (calls : List Call) :
    (s.replay calls).Coherent ∧ s.Remembers (s.replay calls) := by
  induction calls generalizing s with
  | nil => exact ⟨hs, .refl s⟩
  | cons c calls ih =>
    have hc := Call.changes_given s c
    obtain ⟨hcoherent, hremembers⟩ := ih (hc.coherent hs)
    exact ⟨hcoherent, hc.remembers.trans hremembers⟩

/-- A property that every change keeps holds along every history. -/
theorem replay_induction {P : Session → Prop}
    (hstep : ∀ {known asked s s'}, s.Coherent → Change known asked s s' → P s → P s')
    (hs : s.Coherent) (hP : P s) (calls : List Call) : P (s.replay calls) := by
  have hchanges : ∀ {known asked} {s s' : Session}, s.Changes known asked s' → s.Coherent → P s →
      P s' := by
    intro known asked s s' h hs hP
    induction h with
    | refl => exact hP
    | tail hbefore h ih => exact hstep (Changes.coherent hbefore hs) h ih
  induction calls generalizing s with
  | nil => exact hP
  | cons c calls ih =>
    have hc := Call.changes_given s c
    exact ih (hc.coherent hs) (hchanges hc hs hP)

/-! ## Constants -/

/-- The constants among declarations. -/
def constantsOf (l : List Instruction) : List Instruction := l.filter fun i => isConstant i.opcode

theorem constantsOf_append (l : List Instruction) (i : Instruction) :
    constantsOf (l ++ [i]) =
      if isConstant i.opcode then constantsOf l ++ [i] else constantsOf l := by
  unfold constantsOf
  split <;> simp_all

/-- The constants of a module are those that the session remembers, in their order. -/
structure Session.Tallied (s : Session) : Prop where
  keyed : s.constants.Keyed
  listed : results (constantsOf s.draft.module.globals) = s.constants.values

theorem isConstant_of_isType (h : isType op = true) : isConstant op = false := by
  cases op <;> first | rfl | cases h

variable {asked : List Capability}

theorem Session.Change.tallied (h : Change known asked s s') (hs : s.Tallied) : s'.Tallied := by
  cases h with
  | aside h =>
    refine ⟨?_, ?_⟩
    · rw [h.constants]
      exact hs.keyed
    · rw [h.constants, h.globals]
      exact hs.listed
  | enable => exact ⟨hs.keyed, hs.listed⟩
  | moduleVariable =>
    refine ⟨hs.keyed, ?_⟩
    show results (constantsOf (s.draft.module.globals ++ [_])) = _
    rw [constantsOf_append]
    exact hs.listed
  | answer h =>
    cases h with
    | @adopt op operands hform =>
      refine ⟨hs.keyed, ?_⟩
      cases hfound : s.draft.declared? op operands with
      | some =>
        rw [adopt_of_some s op operands hfound]
        exact hs.listed
      | none =>
        rw [(adopt_of_none s op operands hfound).1, constantsOf_append,
          isConstant_of_isType hform.isType]
        exact hs.listed
    | @constant text k op type operands hnew hform =>
      refine ⟨hs.keyed.insert_of_none hnew, ?_⟩
      show results (constantsOf (s.draft.module.globals ++ [_])) =
        (s.constants.insert (text, k) s.draft.next).values
      rw [constantsOf_append, if_pos hform.isConstant, Table.values,
        Table.entries_insert_of_none hnew, map_append, ← Table.values, ← hs.listed]
      simp [results]
    | _ => exact ⟨hs.keyed, hs.listed⟩

/-! ## References -/

/-- A declaration mentions results of earlier ones only. -/
def Backward (l : List Instruction) : Prop :=
  ∀ before i after, l = before ++ i :: after → ∀ id ∈ i.mentions, id ∈ results before

theorem Backward.declare {l : List Instruction} {i : Instruction} (h : Backward l)
    (hi : ∀ id ∈ i.mentions, id ∈ results l) : Backward (l ++ [i]) := by
  intro before j after heq
  rcases eq_nil_or_concat' after with rfl | ⟨rest, last, rfl⟩
  · obtain ⟨rfl, hlast⟩ := append_inj' heq rfl
    cases hlast
    exact hi
  · rw [← cons_append, ← append_assoc] at heq
    exact h before j rest (append_inj' heq rfl).1

/-- A change that is handed nothing but results mentions nothing else. -/
theorem Session.Change.backward (h : Change known asked s s') (hs : s.Declares)
    (hknown : ∀ op id, known op id → id ∈ results s.draft.module.globals)
    (hb : Backward s.draft.module.globals) : Backward s'.draft.module.globals := by
  cases h with
  | aside h =>
    rw [h.globals]
    exact hb
  | enable => exact hb
  | moduleVariable htype =>
    refine hb.declare fun id hid => ?_
    obtain rfl : id = _ := mem_singleton.1 hid
    rcases htype with ⟨⟨pointee, storage⟩, hkey⟩ | htype
    · exact (hs.pointers _ _ _ hkey).mem_globals
    · exact hknown _ _ htype
  | answer h =>
    cases h with
    | @adopt op operands hform =>
      cases hfound : s.draft.declared? op operands with
      | some =>
        rw [adopt_of_some s op operands hfound]
        exact hb
      | none =>
        rw [(adopt_of_none s op operands hfound).1]
        refine hb.declare fun id hid => ?_
        rcases hform.refs_cases hid with ⟨_, h⟩ | ⟨_, h⟩ | h
        · exact hs.type_mem h
        · exact hs.constant_mem h
        · exact hknown _ _ h
    | @constant text k op type operands hnew hform =>
      refine hb.declare fun id hid => ?_
      rcases mem_append.1 hid with hid | hid
      · rw [Option.toList_some, mem_singleton] at hid
        exact hid ▸ hs.type_mem hform.1
      · obtain ⟨_, h⟩ := hform.refs_mem hid
        exact hs.constant_mem h
    | _ => exact hb

theorem Session.Changes.backward (h : s.Changes known asked s') (hs : s.Coherent)
    (hknown : ∀ op id, known op id → id ∈ results s.draft.module.globals)
    (hb : Backward s.draft.module.globals) : Backward s'.draft.module.globals := by
  induction h with
  | refl => exact hb
  | tail hbefore h ih =>
    exact h.backward (Changes.coherent hbefore hs).declares
      (fun op id hid => (Changes.remembers hbefore).results (hknown op id hid)) ih

theorem replay_backward (hs : s.Coherent) (hb : Backward s.draft.module.globals)
    (calls : List Call) (hgrounded : s.Grounded calls) :
    Backward (s.replay calls).draft.module.globals := by
  induction calls generalizing s with
  | nil => exact hb
  | cons c calls ih =>
    obtain ⟨hgiven, hrest⟩ := hgrounded
    have hc := Call.changes_given s c
    exact ih (hc.coherent hs) (hc.backward hs (fun _ => hgiven) hb) hrest

/-! ## Deduplication -/

/-- Two declarations of the type of one form have one id. -/
theorem Session.Coherent.declared_unique (hs : s.Coherent) {operands : List Operand}
    {id id' : Id} (hop : isType op = true) (h : s.Declared op operands id)
    (h' : s.Declared op operands id') : id = id' := by
  obtain ⟨i, hi, rfl, rfl, hid⟩ := h
  obtain ⟨j, hj, hopj, hoperands, hid'⟩ := h'
  rw [hs.ordered.eq_of_form hi hj hop hopj.symm hoperands.symm, hid'] at hid
  exact (Option.some.inj hid).symm

/-- **declares_once**: after any history of a session, a request that succeeds is answered with the
same id ever after, without another declaration; no type is declared twice, and 64-bit integers and
addresses share theirs; the constants stand for the texts and kinds that are remembered, one each;
and every declaration mentions earlier ones, if the ids that were handed in were declared. -/
theorem declares_once (target : Target) (calls : List Call) :
    let s := ({ target } : Session).replay calls
    (∀ (r : Request) id s', r.run s = .ok id s' → ∀ later,
      r.run (s'.replay later) = .ok id (s'.replay later)) ∧
    (typeForms s.draft.module.globals).Nodup ∧
    (∀ id s₁ id' s₂, Build.typeOf .i64 s = .ok id s₁ → Build.typeOf .ptr s₁ = .ok id' s₂ →
      id = id') ∧
    (s.constants.Keyed ∧
      results (constantsOf s.draft.module.globals) = s.constants.values ∧
      (constantsOf s.draft.module.globals).length = s.constants.size ∧
      ∀ text k id, s.constants.get? (text, k) = some id → s.ConstantDeclared text id k) ∧
    (({ target } : Session).Grounded calls → Backward s.draft.module.globals) := by
  have hempty := empty_coherent target
  intro s
  have hs : s.Coherent := (replay_kept hempty calls).1
  have htallied : s.Tallied := replay_induction (fun _ h hs => h.tallied hs) hempty
    ⟨nodup_nil, rfl⟩ calls
  refine ⟨fun r id s' hrun later => ?_, hs.ordered.once, ?_, ⟨htallied.keyed, htallied.listed, ?_,
    hs.declares.constants⟩, fun hgrounded => ?_⟩
  · have hs' := (Request.kept hs hrun).1
    exact ((Request.answered hrun).later (replay_kept hs' later).2).run
  · intro id s₁ id' s₂ hlong hptr
    have hs₁ := (Request.kept (r := .typeOf .i64) hs hlong).1
    obtain ⟨hs₂, hremembers⟩ := Request.kept (r := .typeOf .ptr) hs₁ hptr
    obtain ⟨_, ⟨⟩, hdeclared⟩ := hs₂.declares.types _ _
      (hremembers.types _ _ (Request.answered (r := .typeOf .i64) hlong))
    obtain ⟨_, ⟨⟩, hdeclared'⟩ := hs₂.declares.types _ _ (Request.answered (r := .typeOf .ptr) hptr)
    exact hs₂.declared_unique rfl hdeclared hdeclared'
  · have hcomplete : ∀ i ∈ constantsOf s.draft.module.globals, i.result.isSome = true :=
      fun i hi => hs.ordered.complete i (mem_filter.1 hi).1
    rw [← filterMap_length_eq_length.2 hcomplete]
    show (results _).length = _
    rw [htallied.listed, Table.values, length_map]
    rfl
  · exact replay_backward hempty (fun before i after h => by simp at h) calls hgrounded

/-- Requests of which the first fails on a device without 64-bit numbers. -/
def someCalls : List Call :=
  [.request (.typeOf .f64), .request (.typeOf .i32),
   .request (.pointerToType 1 StorageClass.function), .request (.arrayOf .i32 4),
   .request (.typeOf .ptr), .request (.constant "4" .i32)]

theorem declares_once_someCalls : let start : Session := { target := { fp64 := false } }
    start.Grounded someCalls ∧
      (typeForms (start.replay someCalls).draft.module.globals).Nodup ∧
      (constantsOf (start.replay someCalls).draft.module.globals).length
        = (start.replay someCalls).constants.size ∧
      Backward (start.replay someCalls).draft.module.globals := by
  have hgrounded : ({ target := { fp64 := false } } : Session).Grounded someCalls := by
    decide +kernel
  obtain ⟨-, htypes, -, ⟨-, -, hcount, -⟩, hbackward⟩ := declares_once { fp64 := false } someCalls
  exact ⟨hgrounded, htypes, hcount, hbackward hgrounded⟩

/-- A type of pointers may be asked for whose pointee is declared nowhere. -/
theorem undeclared_pointee_mentioned :
    ¬ Backward (({} : Session).replay
      [.request (.pointerToType 99 StorageClass.function)]).draft.module.globals := by
  intro h
  have hmem := h [] ⟨.typePointer, none, some 1,
    [.enumerant .storageClass StorageClass.function, .ref 99]⟩ [] rfl 99
    (by simp [Instruction.mentions])
  cases hmem

end KernelForge.Codegen
