import KernelForge.Proofs.Declarations.Requests

/-!
# Sessions keep their ledger

`Session.Tidy owed` says that the draft of a session accounts for its ids and that every id the
session mentions or remembers was handed out before. Each step of a session keeps it, so that a
type, a constant or an instruction can only ever refer to ids that exist or are owed.
-/

namespace KernelForge

open List hiding get modify set

namespace Table

variable {κ α : Type} [DecidableEq κ]

variable {t : Table κ α}

/-- What holds of all values of a table holds after one more value of that kind. -/
theorem forall_insert {p : α → Prop} {k : κ} {a : α}
    (h : ∀ k a, t.get? k = some a → p a) (ha : p a) :
    ∀ k' a', (t.insert k a).get? k' = some a' → p a' := by
  intro k' a' hget
  rcases get?_insert_cases hget with ⟨-, rfl⟩ | hget
  · exact ha
  · exact h k' a' hget

/-- Storing a value adds at most that value. -/
theorem mem_values_insert {k : κ} {a b : α} (h : b ∈ (t.insert k a).values) :
    b = a ∨ b ∈ t.values := by
  obtain ⟨rest, hold, hnew⟩ := t.values_insert_perm k
  rcases mem_cons.1 ((hnew a).mem_iff.1 h) with hb | hb
  · exact .inl hb
  · exact .inr (hold.mem_iff.2 (mem_append_right _ hb))

end Table

namespace Codegen

open Lir (Kind)
open Spirv

/-- Whether an id was handed out. -/
def Session.Has (s : Session) (id : Id) : Prop := 0 < id ∧ id < s.draft.next

/-- An id was handed out, and it is no type of arrays. Every id that a session hands on is
known; types of arrays are only pointed to. -/
def Session.Knows (s : Session) (id : Id) : Prop :=
  s.Has id ∧ id ∉ arrayTypes s.draft.instructions

variable {s : Session}

variable {id : Id}

theorem Session.Knows.has (h : s.Knows id) : s.Has id := h.1

theorem Session.Knows.plain (h : s.Knows id) : id ∉ arrayTypes s.draft.instructions := h.2

theorem Session.Knows.fresh (h : s.Knows id) :
    Session.Knows { s with draft := s.draft.fresh.2 } id :=
  ⟨⟨h.has.1, Nat.lt_succ_of_lt h.has.2⟩, h.plain⟩

variable [Opening]

/-- The draft accounts for its ids, and whatever the session mentions or remembers was
handed out. -/
structure Session.Tidy (owed : List Id) (s : Session) : Prop where
  since : Opening.since ≤ s.draft.next
  sections : Opening.sections.Sublist s.draft.module.sections
  accounts : s.draft.Accounts owed
  mentions : ∀ id ∈ mentioned s.draft.instructions, s.Has id
  /-- No instruction has an array for its result. -/
  typed : ∀ i ∈ s.draft.instructions, ∀ type ∈ i.resultType, s.Knows type
  /-- A type of arrays is the result of nothing else, now or later. -/
  apart : ∀ i ∈ s.draft.instructions, i.arrayType? = none → ∀ id ∈ i.result,
    id ∉ arrayTypes s.draft.instructions
  owing : ∀ id ∈ owed, id ∉ arrayTypes s.draft.instructions
  types : ∀ k id, s.types.get? k = some id → s.Knows id
  pointers : ∀ k id, s.pointers.get? k = some id → s.Knows id
  arrays : ∀ k id, s.arrays.get? k = some id → s.Has id
  functionTypes : ∀ k id, s.functionTypes.get? k = some id → s.Knows id
  constants : ∀ k id, s.constants.get? k = some id → s.Knows id
  mathImport : ∀ id, s.mathImport = some id → s.Knows id

namespace Session.Tidy

variable {s : Session} {owed : List Id}

theorem positive (h : s.Tidy owed) : 0 < s.draft.next := Nat.lt_of_lt_of_le Opening.positive h.since

theorem owed_known (h : s.Tidy owed) {id : Id} (hid : id ∈ owed) : s.Knows id :=
  ⟨h.accounts.known_owed h.since hid, h.owing id hid⟩

theorem arrayTypes_lt (h : s.Tidy owed) {id : Id} (hid : id ∈ arrayTypes s.draft.instructions) :
    id < s.draft.next :=
  (h.accounts.known_result h.since (arrayTypes_subset _ hid)).2

variable {owed' : List Id}

theorem perm (h : s.Tidy owed) (hp : owed.Perm owed') : s.Tidy owed' :=
  { h with
    accounts := h.accounts.perm hp
    owing := fun id hid => h.owing id (hp.mem_iff.2 hid) }

/-- What is remembered stays known where known ids do. -/
theorem remembers {d : Draft} (h : s.Tidy owed)
    (hle : s.draft.next ≤ d.next) (hs : s.draft.module.sections.Sublist d.module.sections)
    (hacc : d.Accounts owed') (hm : ∀ id ∈ mentioned d.instructions, 0 < id ∧ id < d.next)
    (hk : ∀ id, s.Knows id → Session.Knows { s with draft := d } id)
    (ht : ∀ i ∈ d.instructions, ∀ type ∈ i.resultType, Session.Knows { s with draft := d } type)
    (ha : ∀ i ∈ d.instructions, i.arrayType? = none → ∀ id ∈ i.result,
      id ∉ arrayTypes d.instructions)
    (ho : ∀ id ∈ owed', id ∉ arrayTypes d.instructions) :
    Session.Tidy owed' { s with draft := d } where
  since := Nat.le_trans h.since hle
  sections := h.sections.trans hs
  accounts := hacc
  mentions := hm
  typed := ht
  apart := ha
  owing := ho
  types k id hid := hk id (h.types k id hid)
  pointers k id hid := hk id (h.pointers k id hid)
  arrays k id hid := ⟨(h.arrays k id hid).1, Nat.lt_of_lt_of_le (h.arrays k id hid).2 hle⟩
  functionTypes k id hid := hk id (h.functionTypes k id hid)
  constants k id hid := hk id (h.constants k id hid)
  mathImport id hid := hk id (h.mathImport id hid)

/-- One more instruction settles the debt of its result. -/
theorem withInstruction {d : Draft} {i : Instruction} (h : s.Tidy (i.result.toList ++ owed))
    (hp : d.instructions.Perm (i :: s.draft.instructions)) (hn : d.next = s.draft.next)
    (hs : s.draft.module.sections.Sublist d.module.sections) (hplain : i.arrayType? = none)
    (hm : ∀ id ∈ refs i.operands, s.Has id) (ht : ∀ type ∈ i.resultType, s.Knows type) :
    Session.Tidy owed { s with draft := d } ∧
      ∀ id, s.Knows id → Session.Knows { s with draft := d } id := by
  have harrays : ∀ {id}, id ∈ arrayTypes d.instructions ↔ id ∈ arrayTypes s.draft.instructions := by
    intro id
    rw [arrayTypes, (hp.filterMap _).mem_iff, filterMap_cons_none hplain]
    rfl
  have hk : ∀ id, s.Knows id → Session.Knows { s with draft := d } id := fun id hid =>
    ⟨⟨hid.has.1, hn ▸ hid.has.2⟩, fun hin => hid.plain (harrays.1 hin)⟩
  refine ⟨h.remembers (Nat.le_of_eq hn.symm) hs (h.accounts.of_perm hp hn) (fun id hid => ?_) hk
    (fun j hj type htype => ?_) (fun j hj hop id hid => ?_) fun id hid hin => ?_, hk⟩
  · have hmem : id ∈ mentioned (i :: s.draft.instructions) := (hp.flatMap_right _).mem_iff.1 hid
    rw [hn]
    rw [mentioned, flatMap_cons, mem_append] at hmem
    rcases hmem with hid | hid
    · rcases mem_append.1 hid with hid | hid
      · exact (ht id (Option.mem_toList.1 hid)).has
      · exact hm id hid
    · exact h.mentions id hid
  · rcases mem_cons.1 (hp.mem_iff.1 hj) with rfl | hj
    · exact hk type (ht type htype)
    · exact hk type (h.typed j hj type htype)
  · rw [harrays]
    rcases mem_cons.1 (hp.mem_iff.1 hj) with rfl | hj
    · exact h.owing id (mem_append_left _ (Option.mem_toList.2 hid))
    · exact h.apart j hj hop id hid
  · exact h.owing id (mem_append_right _ hid) (harrays.1 hin)

/-- A new id is owed by whoever asked for it. -/
theorem fresh (h : s.Tidy owed) :
    Session.Tidy (s.draft.next :: owed) { s with draft := s.draft.fresh.2 } := by
  refine h.remembers (Nat.le_succ _) (.refl _) (h.accounts.fresh h.since)
    (fun id hid => ?_) (fun _ hid => hid.fresh) (fun i hi type ht => (h.typed i hi type ht).fresh)
    h.apart fun id hid hin => ?_
  · have hhas := h.mentions id hid
    exact ⟨hhas.1, Nat.lt_succ_of_lt hhas.2⟩
  · rcases mem_cons.1 hid with rfl | hid
    · exact Nat.lt_irrefl _ (h.arrayTypes_lt hin)
    · exact h.owing id hid hin

/-- One more type of arrays, with a new id. -/
theorem withArray {operands : List Operand} (h : s.Tidy owed)
    (hm : ∀ id ∈ refs operands, s.Has id) :
    let d := { s.draft.declare ⟨.typeArray, none, some s.draft.next, operands⟩ with
      next := s.draft.next + 1 }
    Session.Tidy owed { s with draft := d } ∧
      ∀ id, s.Knows id → Session.Knows { s with draft := d } id := by
  intro d
  have hp : d.instructions.Perm (⟨.typeArray, none, some s.draft.next, operands⟩ ::
      s.draft.instructions) := (Draft.declare_placed _ _).perm
  have harrays : ∀ {id}, id ∈ arrayTypes d.instructions ↔
      id = s.draft.next ∨ id ∈ arrayTypes s.draft.instructions := by
    intro id
    rw [arrayTypes, (hp.filterMap _).mem_iff]
    exact mem_cons
  have hk : ∀ id, s.Knows id → Session.Knows { s with draft := d } id := by
    intro id hid
    refine ⟨⟨hid.has.1, Nat.lt_succ_of_lt hid.has.2⟩, fun hin => ?_⟩
    rcases harrays.1 hin with rfl | hin
    · exact Nat.lt_irrefl _ hid.has.2
    · exact hid.plain hin
  have hacc : d.Accounts owed := .of_perm (d := s.draft.fresh.2) hp rfl (h.accounts.fresh h.since)
  refine ⟨h.remembers (Nat.le_succ _) (Draft.declare_placed _ _).sections hacc (fun id hid => ?_) hk
    (fun j hj type htype => ?_) (fun j hj hop id hid hin => ?_) fun id hid hin => ?_, hk⟩
  · have hmem := (hp.flatMap_right Instruction.mentions).mem_iff.1 hid
    rw [flatMap_cons, mem_append] at hmem
    have hhas : s.Has id := hmem.elim (hm id) (h.mentions id)
    exact ⟨hhas.1, Nat.lt_succ_of_lt hhas.2⟩
  · rcases mem_cons.1 (hp.mem_iff.1 hj) with rfl | hj
    · cases htype
    · exact hk type (h.typed j hj type htype)
  · rcases mem_cons.1 (hp.mem_iff.1 hj) with rfl | hj
    · cases hop
    · rcases harrays.1 hin with rfl | hin
      · exact Nat.lt_irrefl _ (h.accounts.known_result h.since (mem_filterMap.2 ⟨j, hj, hid⟩)).2
      · exact h.apart j hj hop id hid hin
  · rcases harrays.1 hin with rfl | hin
    · exact Nat.lt_irrefl _ (h.owed_known hid).has.2
    · exact h.owing id hid hin

end Session.Tidy

open Session (Tidy Knows)

namespace Build

/-- A step that keeps the ledger of a session, whatever is owed. -/
def Safe {α : Type} (x : Build α) (needs : List Id) (gives : α → List Id) : Prop :=
  ∀ owed, Keeps (Tidy owed) Knows x needs gives

namespace Safe

variable {α β : Type} {x : Build α} {f : α → Build β} {needs : List Id} {gives : α → List Id}
  {l : List β}

theorem bind {mid : α → List Id} {gives : β → List Id} (hx : Safe x needs mid)
    (hf : ∀ a, Safe (f a) (mid a ++ needs) gives) : Safe (x >>= f) needs gives :=
  fun owed => (hx owed).bind fun a => hf a owed

theorem pure {a : α} (h : gives a ⊆ needs) : Safe (Pure.pure a) needs gives := fun _ => .pure h

theorem throw {e : Error} : Safe (MonadExcept.throw e : Build α) needs gives := fun _ => .throw

theorem mapM {g : β → Build α} (h : ∀ b ∈ l, Safe (g b) needs gives) :
    Safe (l.mapM g) needs fun as => as.flatMap gives :=
  fun owed => .mapM fun b hb => h b hb owed

theorem forM {g : β → Build PUnit} (h : ∀ b ∈ l, Safe (g b) needs fun _ => []) :
    Safe (l.forM g) needs fun _ => [] :=
  fun owed => .forM fun b hb => h b hb owed

theorem foldlM {g : α → β → Build α} {a : α}
    (ha : gives a ⊆ needs) (h : ∀ a, ∀ b ∈ l, Safe (g a b) (gives a ++ needs) gives) :
    Safe (l.foldlM g a) needs gives := by
  induction l generalizing a needs with
  | nil => exact .pure ha
  | cons b l ih =>
    have hstep : Safe (g a b) needs gives := by
      intro owed s c s' hs hn
      exact h a b mem_cons_self owed hs (forall_mem_append.2 ⟨fun id hid => hn id (ha hid), hn⟩)
    refine hstep.bind fun c => ih (subset_append_left _ _) fun c' b' hb' => ?_
    intro owed s d s' hs hn
    refine h c' b' (mem_cons_of_mem _ hb') owed hs fun id hid => hn id ?_
    simp only [mem_append] at hid ⊢
    exact hid.imp_right .inr

variable {g : Session → Build α}

theorem peek (hg : ∀ s, Safe (g s) needs gives) : Safe (get >>= g) needs gives := by
  intro owed s a s' hs hn h
  exact hg s owed hs hn h

theorem get {ids : Session → List Id} (hids : ∀ s owed, s.Tidy owed → ∀ id ∈ ids s, s.Knows id)
    (hg : ∀ s, Safe (g s) (ids s ++ needs) gives) : Safe (get >>= g) needs gives := by
  intro owed s a s' hs hn h
  exact hg s owed hs (forall_mem_append.2 ⟨hids s owed hs, hn⟩) h

/-- Remembering known ids. -/
theorem modify {g : Session → Session} (hdraft : ∀ s, (g s).draft = s.draft)
    (hg : ∀ s owed, s.Tidy owed → (∀ id ∈ needs, s.Knows id) → (g s).Tidy owed) :
    Safe (modify g) needs fun _ => [] := by
  intro owed s u s' hs hn h
  cases modify_ok.1 h
  refine ⟨hg s owed hs hn, fun id hid => ?_, fun id hid => by cases hid⟩
  unfold Knows Session.Has
  rw [hdraft s]
  exact hid

end Safe

variable {needs : List Id}

/-! ## The draft -/

theorem fresh_takes (owed : List Id) :
    Takes (Tidy owed) Knows fresh needs (fun id => Tidy (id :: owed))
      fun id => [id] := by
  intro s id s' hs _ h
  cases modifyGet_ok.1 h
  refine ⟨hs.fresh, fun i hi => hi.fresh, fun i hi => ?_⟩
  cases mem_singleton.1 hi
  exact hs.fresh.owed_known mem_cons_self

variable {s s' : Session}

variable {g : Draft → Except Spirv.StructureFault Draft}

omit [Opening] in
theorem onDraft_ok {u : Unit}
    (h : onDraft g s = .ok u s') : ∃ d, g s.draft = .ok d ∧ { s with draft := d } = s' := by
  replace h := get_bind_ok.1 h
  cases hd : g s.draft with
  | error =>
    simp only [hd] at h
    exact absurd h throw_ok
  | ok d =>
    simp only [hd] at h
    exact ⟨d, rfl, modify_ok.1 h⟩

section Mentions

variable {s : Session} {i : Instruction} (hm : i.mentions ⊆ needs) (hn : ∀ id ∈ needs, s.Knows id)
include hm hn

omit [Opening] in
theorem mentions_has : ∀ id ∈ refs i.operands, s.Has id :=
  fun id hid => (hn id (hm (mem_append_right _ hid))).has

omit [Opening] in
theorem mentions_type : ∀ type ∈ i.resultType, s.Knows type :=
  fun type htype => hn type (hm (mem_append_left _ (Option.mem_toList.2 htype)))

end Mentions

variable {i : Instruction}

/-- An instruction put in its place settles the debt of its result. -/
theorem placed_takes
    (hg : ∀ d d', g d = .ok d' → Draft.Placed i d d') (owed : List Id) (hm : i.mentions ⊆ needs)
    (hplain : i.arrayType? = none) :
    Takes (Tidy (i.result.toList ++ owed)) Knows (onDraft g) needs
      (fun _ => Tidy owed) fun _ => [] := by
  intro s u s' hs hn h
  obtain ⟨d, hd, rfl⟩ := onDraft_ok h
  have hp := hg _ _ hd
  obtain ⟨hs', hmono⟩ := hs.withInstruction hp.perm hp.next hp.sections hplain (mentions_has hm hn)
    (mentions_type hm hn)
  exact ⟨hs', hmono, forall_mem_nil _⟩

theorem place_takes (i : Instruction) (owed : List Id) (hm : i.mentions ⊆ needs)
    (hplain : i.arrayType? = none) (hmodel : i.opcode ≠ .memoryModel)
    (hend : i.opcode = .functionEnd → i = ⟨.functionEnd, none, none, []⟩) :
    Takes (Tidy (i.result.toList ++ owed)) Knows (place i) needs
      (fun _ => Tidy owed) fun _ => [] :=
  placed_takes (fun _ _ => Draft.place_placed ⟨fun hop => absurd hop hmodel, hend⟩) owed hm hplain

theorem place_safe (hm : i.mentions ⊆ needs) (hr : i.result = none)
    (hmodel : i.opcode ≠ .memoryModel)
    (hend : i.opcode = .functionEnd → i = ⟨.functionEnd, none, none, []⟩) :
    Safe (place i) needs fun _ => [] := by
  intro owed
  have h := place_takes i owed hm (by simp [Instruction.arrayType?, hr]) hmodel hend
  rw [hr] at h
  exact h

variable {owed : List Id}

/-- A declaration with a new result, which is no type of arrays. -/
theorem declare_tidy (hs : s.Tidy owed) (hi : i.result = some s.draft.next)
    (hplain : i.arrayType? = none) (hm : ∀ id ∈ refs i.operands, s.Has id)
    (ht : ∀ type ∈ i.resultType, s.Knows type) :
    let d := { s.draft.declare i with next := s.draft.next + 1 }
    Tidy owed { s with draft := d } ∧
      (∀ id, s.Knows id → Knows { s with draft := d } id) ∧
      Knows { s with draft := d } s.draft.next := by
  have howed : Tidy (i.result.toList ++ owed) { s with draft := s.draft.fresh.2 } := by
    rw [hi]
    exact hs.fresh
  obtain ⟨hs', hmono⟩ := howed.withInstruction
    (d := { s.draft.declare i with next := s.draft.next + 1 }) (Draft.declare_placed s.draft i).perm
    rfl (Draft.declare_placed _ _).sections hplain
    (fun id hid => ⟨(hm id hid).1, Nat.lt_succ_of_lt (hm id hid).2⟩)
    fun type htype => (ht type htype).fresh
  exact ⟨hs', fun id hid => hmono id hid.fresh, hmono _ (hs.fresh.owed_known mem_cons_self)⟩

variable {op : Opcode} {operands : List Operand} {id type pointee pointerType target : Id}

/-- A type, whatever handed out ids it is made of. -/
theorem declareType_tidy (op : Opcode) (hs : s.Tidy owed) (hm : ∀ id ∈ refs operands, s.Has id) :
    let d := (s.draft.declareType op operands).2
    Tidy owed { s with draft := d } ∧
      ∀ id, s.Knows id → Knows { s with draft := d } id := by
  unfold Draft.declareType
  cases s.draft.declared? op operands with
  | some => exact ⟨hs, fun _ hid => hid⟩
  | none =>
    by_cases hop : op = .typeArray
    · subst hop
      exact hs.withArray hm
    · obtain ⟨hs', hmono, -⟩ := declare_tidy (i := ⟨op, none, some s.draft.next, operands⟩) hs rfl
        (if_neg fun h => hop h.1) hm nofun
      exact ⟨hs', hmono⟩

theorem declareValue_safe (op : Opcode) (h : type :: refs operands ⊆ needs) :
    Safe (declareValue op type operands) needs fun id => [id] := by
  intro owed s id s' hs hn hd
  have hd := modifyGet_ok.1 hd
  obtain ⟨rfl, rfl⟩ := hd
  obtain ⟨hs', hmono, hid⟩ := declare_tidy (i := ⟨op, some type, some s.draft.next, operands⟩) hs
    rfl (if_neg nofun) (mentions_has h hn) (mentions_type h hn)
  exact ⟨hs', hmono, forall_mem_singleton.2 hid⟩

theorem require_safe (c : Capability) : Safe (require c) needs fun _ => [] := by
  refine .peek fun s => ?_
  split
  · refine .bind (.modify (fun _ => rfl) fun s owed hs _ => { hs with }) fun _ => ?_
    exact place_safe (nil_subset _) rfl nofun nofun
  · exact .pure (nil_subset _)

/-! ## Requests -/

/-- What is declared was handed out; only a type of arrays is one. -/
theorem declared_known (hs : s.Tidy owed) (h : s.Declared op operands id) :
    s.Has id ∧ (op ≠ .typeArray → s.Knows id) := by
  obtain ⟨i, hi, rfl, -, hresult⟩ := h
  have hmem : i ∈ s.draft.instructions := by
    simp only [Draft.instructions, Spirv.Module.instructions, mem_append]
    exact .inl (.inl (.inl (.inr hi)))
  have hhas := hs.accounts.known_result hs.since (mem_filterMap.2 ⟨i, hmem, hresult⟩)
  exact ⟨hhas, fun hop => ⟨hhas, hs.apart i hmem (if_neg fun h => hop h.1) _ hresult⟩⟩

theorem typeDeclared_known {k : Kind} (hs : s.Tidy owed) (h : s.TypeDeclared id k) :
    s.Knows id := by
  cases k with
  | vector =>
    obtain ⟨_, -, -, h⟩ := h
    exact (declared_known hs h).2 nofun
  | _ =>
    obtain ⟨_, ⟨⟩, h⟩ := h
    exact (declared_known hs h).2 nofun

theorem enable_tidy (c : Option Capability) (hs : s.Tidy owed) :
    (s.enable c).Tidy owed ∧ ∀ id, s.Knows id → (s.enable c).Knows id := by
  cases c with
  | none =>
    rw [enable_none]
    exact ⟨hs, fun _ hid => hid⟩
  | some c =>
    obtain ⟨hs', hmono, -⟩ := require_safe c owed hs (forall_mem_nil _) (Session.require_run s c)
    exact ⟨hs', hmono⟩

variable {known : Opcode → Id → Prop}

/-- An answer keeps the ledger of a session. -/
theorem answer_tidy (h : Session.Answer known s s') (hknown : ∀ op id, known op id → s.Has id)
    (hs : s.Tidy owed) : s'.Tidy owed ∧ ∀ id, s.Knows id → s'.Knows id := by
  cases h with
  | @adopt op operands hform =>
    have hrefs : ∀ id ∈ refs operands, s.Has id := by
      intro id hid
      rcases hform.refs_cases hid with ⟨_, h⟩ | ⟨_, h⟩ | h
      · exact (hs.types _ _ h).has
      · exact (hs.constants _ _ h).has
      · exact hknown op id h
    obtain ⟨hs₁, hmono₁⟩ := enable_tidy (demand op operands) hs
    obtain ⟨hs₂, hmono₂⟩ := declareType_tidy op hs₁ hrefs
    exact ⟨{ hs₂ with }, fun id hid => hmono₂ id (hmono₁ id hid)⟩
  | @constant text k op type operands hnew hform =>
    have hrefs : ∀ id ∈ refs operands, s.Has id := by
      intro id hid
      obtain ⟨_, h⟩ := hform.refs_mem hid
      exact (hs.constants _ _ h).has
    obtain ⟨hs', hmono, hid⟩ := declare_tidy (i := ⟨op, some type, some s.draft.next, operands⟩) hs
      rfl (if_neg nofun) hrefs fun _ htype => Option.mem_some.1 htype ▸ hs.types _ _ hform.1
    exact ⟨{ hs' with constants := Table.forall_insert hs'.constants hid }, hmono⟩
  | rememberType hnew hid =>
    have hknown := typeDeclared_known hs hid
    exact ⟨{ hs with types := Table.forall_insert hs.types hknown }, fun _ hid => hid⟩
  | rememberPointer hnew hid =>
    exact ⟨{ hs with
      pointers := Table.forall_insert hs.pointers ((declared_known hs hid).2 nofun) },
      fun _ hid => hid⟩
  | rememberArray hnew hid =>
    obtain ⟨_, _, -, -, hid⟩ := hid
    exact ⟨{ hs with arrays := Table.forall_insert hs.arrays (declared_known hs hid).1 },
      fun _ hid => hid⟩
  | rememberFunction hnew hid =>
    exact ⟨{ hs with
      functionTypes := Table.forall_insert hs.functionTypes ((declared_known hs hid).2 nofun) },
      fun _ hid => hid⟩

theorem answers_tidy (h : s.Answers known s') (hknown : ∀ op id, known op id → s.Has id)
    (hs : s.Tidy owed) : s'.Tidy owed ∧ ∀ id, s.Knows id → s'.Knows id := by
  induction h with
  | refl => exact ⟨hs, fun _ hid => hid⟩
  | tail hbefore h ih =>
    obtain ⟨hs₁, hmono₁⟩ := ih
    have hnext := (Session.Answers.remembers hbefore).next
    obtain ⟨hs₂, hmono₂⟩ := answer_tidy h (fun op id hid =>
      ⟨(hknown op id hid).1, Nat.lt_of_lt_of_le (hknown op id hid).2 hnext⟩) hs₁
    exact ⟨hs₂, fun id hid => hmono₂ id (hmono₁ id hid)⟩

/-- A request that is handed no id. -/
theorem Asks.takes {α : Type} {x : Build α} {found : Session → α → Session → Prop}
    (h : Asks x (fun _ _ => False) found) (owed : List Id) {J : α → Session → Prop}
    {gives : α → List Id} (hJ : ∀ {s a s'}, found s a s' → s'.Tidy owed → J a s')
    (hgives : ∀ {s a s'}, found s a s' → s'.Tidy owed → ∀ id ∈ gives a, s'.Knows id) :
    Takes (Tidy owed) Knows x needs J gives := by
  intro s a s' hs _ hrun
  obtain ⟨hanswers, hfound⟩ := (h s).ok hrun
  obtain ⟨hs', hmono⟩ := answers_tidy hanswers nofun hs
  exact ⟨hJ hfound hs', hmono, hgives hfound hs'⟩

theorem typeOf_safe (k : Kind) : Safe (typeOf k) needs fun id => [id] := fun owed =>
  (typeOf_asks k).takes owed (fun _ hs => hs) fun h hs =>
    forall_mem_singleton.2 (hs.types _ _ h.2)

theorem constant_safe (value : String) (k : Kind) :
    Safe (constant value k) needs fun id => [id] := fun owed =>
  (constant_asks value k).takes owed (fun _ hs => hs) fun h hs =>
    forall_mem_singleton.2 (hs.constants _ _ h.2)

/-- A type of arrays is handed out, to be pointed to. -/
theorem arrayOf_takes (element : Kind) (length : UInt32) (owed : List Id) :
    Takes (Tidy owed) Knows (arrayOf element length) needs
      (fun id s => s.Tidy owed ∧ s.Has id) fun _ => [] :=
  (arrayOf_asks element length).takes owed (fun h hs => ⟨hs, hs.arrays _ _ h⟩)
    fun _ _ => forall_mem_nil _

/-- A type that was handed out may be pointed to, also a type of arrays. -/
theorem pointerToType_takes (storage : StorageClass) (owed : List Id) :
    Takes (fun s => s.Tidy owed ∧ s.Has pointee) Knows (pointerToType pointee storage) needs
      (fun _ => Tidy owed) fun id => [id] := by
  rintro s id s' ⟨hs, hp⟩ - hrun
  have hasks : Asks (pointerToType pointee storage) (fun _ i => i = pointee) _ :=
    pointerToType_asks storage rfl
  obtain ⟨hanswers, hget⟩ := (hasks s).ok hrun
  obtain ⟨hs', hmono⟩ := answers_tidy hanswers (fun _ _ hid => hid ▸ hp) hs
  exact ⟨hs', hmono, forall_mem_singleton.2 (hs'.pointers _ _ hget)⟩

theorem pointerToType_safe (storage : StorageClass) (h : pointee ∈ needs) :
    Safe (pointerToType pointee storage) needs fun id => [id] :=
  fun owed _ _ _ hs hn => pointerToType_takes storage owed ⟨hs, (hn pointee h).has⟩ hn

theorem pointerTo_safe (k : Kind) (storage : StorageClass) :
    Safe (pointerTo k storage) needs fun id => [id] :=
  (typeOf_safe k).bind fun _ => pointerToType_safe storage (by simp)

theorem functionType_safe {ret : Id} {params : List Id} (h : ret :: params ⊆ needs) :
    Safe (functionType ret params) needs fun id => [id] := by
  intro owed s id s' hs hn hrun
  have hasks : Asks (functionType ret params) (fun _ i => i ∈ needs) _ := functionType_asks h
  obtain ⟨hanswers, hget⟩ := (hasks s).ok hrun
  obtain ⟨hs', hmono⟩ := answers_tidy hanswers (fun _ i hi => (hn i hi).has) hs
  exact ⟨hs', hmono, forall_mem_singleton.2 (hs'.functionTypes _ _ hget)⟩

/-- The type of pointers to arrays. -/
theorem arrayPointer_safe (element : Kind) (length : UInt32) (storage : StorageClass) :
    Safe (do pointerToType (← arrayOf element length) storage) needs fun id => [id] :=
  fun owed => (arrayOf_takes element length owed).bind fun _ => pointerToType_takes storage owed

/-! ## Instructions -/

/-- An instruction with a chosen result settles the debt of that result. -/
theorem emitAs_takes (op : Opcode) (owed : List Id) (h : type :: refs operands ⊆ needs) :
    Takes (Tidy (id :: owed)) Knows (emitAs op type id operands) needs
      (fun _ => Tidy owed) fun _ => [] :=
  placed_takes (i := ⟨op, some type, some id, operands⟩) (fun _ _ => Draft.append_placed) owed h
    (if_neg nofun)

theorem emit_safe (op : Opcode) (h : type :: refs operands ⊆ needs) :
    Safe (emit op type operands) needs fun id => [id] := by
  intro owed
  refine (fresh_takes owed).bind fun id => ?_
  refine (emitAs_takes op owed fun i hi => ?_).bind fun _ => .pure (by simp)
  exact mem_append_right _ (h hi)

theorem emitVoid_safe (op : Opcode) (h : refs operands ⊆ needs) :
    Safe (emitVoid op operands) needs fun _ => [] :=
  fun owed => placed_takes (i := ⟨op, none, none, operands⟩) (fun _ _ => Draft.append_placed) owed h
    (ite_self _)

theorem mathImport_known (s : Session) (owed : List Id) (hs : s.Tidy owed) :
    ∀ id ∈ s.mathImport.toList, s.Knows id :=
  fun id hid => hs.mathImport id (Option.mem_toList.1 hid)

theorem importedSet_safe : Safe importedSet needs fun id => [id] := by
  refine .get mathImport_known fun s => ?_
  cases s.mathImport with
  | some => exact .pure (by simp)
  | none => exact .throw

/-- An extended instruction with a chosen result settles the debt of that result. -/
theorem emitMath_takes (number : Nat) (owed : List Id) (h : type :: refs operands ⊆ needs) :
    Takes (Tidy (id :: owed)) Knows (emitMath type (some id) number operands) needs
      (fun _ => Tidy owed) fun _ => [] := by
  refine (importedSet_safe (id :: owed)).bind fun set => ?_
  refine (emitAs_takes _ owed ?_).bind fun _ => .pure (nil_subset _)
  simp only [refs_ref, refs_extInst]
  grind

theorem emitMath_safe (number : Nat) (h : type :: refs operands ⊆ needs) :
    Safe (emitMath type none number operands) needs fun id => [id] := by
  intro owed
  refine (importedSet_safe owed).bind fun set => ?_
  refine (fresh_takes owed).bind fun id => ?_
  refine (emitAs_takes _ owed ?_).bind fun _ => .pure (by simp)
  simp only [refs_ref, refs_extInst]
  grind

theorem localVariable_safe (h : pointerType ∈ needs) :
    Safe (localVariable pointerType) needs fun id => [id] :=
  emit_safe _ (by simpa using h)

theorem globalVariable_safe (storage : StorageClass) (h : pointerType ∈ needs) :
    Safe (globalVariable pointerType storage) needs fun id => [id] :=
  declareValue_safe _ (by simpa using h)

theorem name_safe (text : String) (h : target ∈ needs) :
    Safe (name target text) needs fun _ => [] :=
  place_safe (by simpa [Instruction.mentions] using h) rfl nofun nofun

theorem decorate_safe (decoration : Nat) (h : target :: refs operands ⊆ needs) :
    Safe (decorate target decoration operands) needs fun _ => [] :=
  place_safe (by simpa [Instruction.mentions] using h) rfl nofun nofun

/-! ## Coordinates -/

theorem declareBuiltin_safe (q : Lir.ThreadQuery) (h : pointerType ∈ needs) :
    Safe (declareBuiltin pointerType q) needs fun id => [id] := by
  refine (globalVariable_safe _ h).bind fun id => ?_
  refine (decorate_safe _ (by simp)).bind fun _ => ?_
  refine (decorate_safe _ (by simp)).bind fun _ => ?_
  exact (decorate_safe _ (by simp)).bind fun _ => .pure (by simp)

theorem declareBuiltins_safe : Safe declareBuiltins needs Table.values := by
  refine (pointerTo_safe _ _).bind fun pointerType => ?_
  refine .foldlM (nil_subset _) fun table q _ => ?_
  refine (declareBuiltin_safe q (by simp)).bind fun id => .pure fun i hi => ?_
  rcases Table.mem_values_insert hi with rfl | hi
  · simp
  · simp [hi]

end Build

end Codegen

end KernelForge
