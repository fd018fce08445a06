import KernelForge.Proofs.Ledger.Operations

/-!
# How an assembler runs

What a successful call of an assembler goes through, told once for all that is proved about modules:
a function is declared, prepared, given its body and closed (`define_cases`), and at the end kernels
are made exact (`finish_cases`). Ahead of a body only the session and the arrays change (`Frames`).

Only runs that succeed are taken apart; what a failure leaves is told in `Proofs.Stages`.
-/

namespace KernelForge.Codegen

open List hiding get modify
open Lir (ValueId BlockId)
open Spirv
open Build (onDraft_ok place)

variable {entry : BlockId} {binary : Binary} {b b' : Body}

namespace Emit

variable {scope : Scope}

theorem insertSorted_ne_nil (v : ValueId) (l : List ValueId) : Symbols.insertSorted v l ≠ [] := by
  cases l with
  | nil => simp [Symbols.insertSorted]
  | cons =>
    unfold Symbols.insertSorted
    split <;> simp

/-- Nothing is reserved when no value is pending. -/
theorem reserved_of_pending_nil {t : Symbols} (h : t.pending = []) : t.reserved.entries = [] := by
  unfold Symbols.pending Table.keys at h
  cases he : t.reserved.entries with
  | nil => rfl
  | cons =>
    rw [he] at h
    exact absurd h (insertSorted_ne_nil _ _)

theorem checkPending_ok {u : Unit} (h : checkPending scope b = .ok u b') :
    b = b' ∧ b.symbols.pending = [] := by
  simp only [checkPending, bind_apply] at h
  replace h := get_bind_ok.1 h
  cases hp : b.symbols.pending with
  | nil =>
    rw [hp] at h
    exact ⟨(pure_ok.1 h).2, rfl⟩
  | cons =>
    rw [hp] at h
    exact absurd h throw_ok

theorem body_cases {ordinal : Nat} {params : List Id} {u : Unit}
    (h : body ordinal entry params scope b = .ok u b') :
    ∃ b₁ b₂, prologue entry params scope b = .ok () b₁ ∧
      (scope.function.blocks.forM (block ordinal)) scope b₁ = .ok () b₂ ∧
      returnBlock scope b₂ = .ok () b' ∧ b'.symbols.reserved.entries = [] := by
  obtain ⟨_, b₁, hprologue, h⟩ := bind_ok.1 h
  obtain ⟨_, b₂, hblocks, h⟩ := bind_ok.1 h
  obtain ⟨_, b₃, hreturn, hpending⟩ := bind_ok.1 h
  obtain ⟨rfl, hnil⟩ := checkPending_ok hpending
  exact ⟨b₁, b₂, hprologue, hblocks, hreturn, reserved_of_pending_nil hnil⟩

end Emit

namespace Assemble

variable {α : Type} {a a' : Assembler} {u : Unit}

theorem expectStage_ok {action : Action} {allowed : List Stage}
    (h : expectStage action allowed a = .ok u a') : a.stage ∈ allowed ∧ a = a' := by
  replace h := get_bind_ok.1 h
  split at h
  · exact absurd h throw_ok
  · next hin => exact ⟨Decidable.not_not.1 hin, (pure_ok.1 h).2⟩

/-- A function has its id already, or it gets a new one. -/
theorem declare_cases {f : Lir.Function} {signature : Signature}
    (h : declare f a = .ok signature a') :
    (a.callees.get? f.name = some signature ∧ a' = a) ∨
      (a.callees.get? f.name = none ∧ signature.id = a.session.draft.next ∧
        a' = { a with
          session := { a.session with draft := a.session.draft.fresh.2 }
          callees := a.callees.insert f.name signature }) := by
  replace h := get_bind_ok.1 h
  cases hc : a.callees.get? f.name with
  | some =>
    rw [hc] at h
    obtain ⟨rfl, rfl⟩ := pure_ok.1 h
    exact .inl ⟨rfl, rfl⟩
  | none =>
    rw [hc] at h
    obtain ⟨_, -, h⟩ := look_ok expectStage_ok h
    obtain ⟨id, session, hsession, h⟩ := build_bind_ok h
    cases modifyGet_ok.1 hsession
    obtain ⟨rfl, rfl⟩ := pure_ok.1 h
    exact .inr ⟨rfl, rfl, rfl⟩

/-- The mode of a kernel in which no operations are contracted. -/
def contractionOff (id : Id) : Instruction :=
  ⟨.executionMode, none, none, [.ref id, .enumerant .executionMode 31]⟩

theorem exactModes_ok {ids : List (String × Id)} {s s' : Session} {u : PUnit}
    (h : (ids.forM fun k => exactMode k.2) s = .ok u s') :
    s' = { s with draft := s.draft.onModule fun m => { m with
      executionModes := m.executionModes ++ ids.map fun k => contractionOff k.2 } } := by
  induction ids generalizing s with
  | nil =>
    obtain ⟨_, rfl⟩ := pure_ok.1 h
    simp [Draft.onModule]
  | cons k ids ih =>
    obtain ⟨_, s₁, hfirst, hrest⟩ := bind_ok.1 h
    have hplace : place _ s = .ok _ s₁ := hfirst
    obtain ⟨d, hd, rfl⟩ := onDraft_ok hplace
    cases hd
    rw [ih hrest]
    simp [Draft.onModule, contractionOff]

/-- At the end the kernels of a module with both other precisions are made exact. -/
theorem finish_cases (h : finish a = .ok binary a') :
    a.stage = .functionClosed ∧
      a' = { a with
        stage := .done
        session := { a.session with draft := a.session.draft.onModule fun m => { m with
          executionModes := m.executionModes ++ if a.session.usesFp64 && a.session.usesFp16 then
            a.kernels.map fun k => contractionOff k.2 else [] } } } ∧
      binary = ⟨a.name, a'.session.words, a.kernels.map Prod.fst⟩ := by
  obtain ⟨_, hclosed, h⟩ := look_ok expectStage_ok h
  obtain ⟨_, a₁, hexact, h⟩ := bind_ok.1 h
  replace h := modify_bind_ok.1 h
  obtain ⟨rfl, rfl⟩ := pure_ok.1 h
  refine ⟨mem_singleton.1 hclosed, ?_⟩
  replace hexact := get_bind_ok.1 hexact
  split at hexact
  · next hboth =>
    obtain ⟨session, hmodes, rfl⟩ := build_ok.1 hexact
    rw [if_pos hboth, exactModes_ok hmodes]
    exact ⟨rfl, rfl⟩
  · next hboth =>
    obtain ⟨_, rfl⟩ := pure_ok.1 hexact
    rw [if_neg hboth]
    simp [Draft.onModule]

/-- Nothing but the session and the arrays differ. -/
def Framed (a a' : Assembler) : Prop :=
  ∃ session arrays, a' = { a with session, symbols := { a.symbols with arrays } }

/-- A step that changes nothing else, whether it succeeds or fails. -/
def Frames (x : Assemble α) : Prop := ∀ a, Ends x a (fun _ => Framed a) (Framed a)

namespace Frames

variable {β : Type} {x : Assemble α} {g : α → Assemble β}

theorem bind (hx : Frames x) (hg : ∀ r, Frames (g r)) : Frames (x >>= g) := by
  intro a
  refine (hx a).bind fun r a' _ ha' => ?_
  obtain ⟨session, arrays, rfl⟩ := ha'
  exact hg r _

theorem pure (r : α) : Frames (Pure.pure r : Assemble α) := fun _ => .pure ⟨_, _, rfl⟩

theorem get {g : Assembler → Assemble β} (hg : ∀ a, Frames (g a)) : Frames (MonadState.get >>= g) :=
  fun a => .get (hg a a)

theorem build (step : Build α) : Frames (Assemble.build step) := by
  intro a
  unfold Ends Assemble.build Build.within
  cases step a.session <;> exact ⟨_, _, rfl⟩

theorem forM (l : List β) {g : β → Assemble PUnit} (h : ∀ b, Frames (g b)) : Frames (l.forM g) := by
  induction l with
  | nil => exact pure _
  | cons b l ih => exact (h b).bind fun _ => ih

end Frames

theorem groupArray_frames (array : Lir.ArrayDecl) : Frames (groupArray array) := by
  refine (Frames.build _).bind fun _ => (Frames.build _).bind fun _ => ?_
  refine (Frames.build _).bind fun _ => (Frames.build _).bind fun _ => ?_
  exact fun _ => .note ⟨_, _, rfl⟩

theorem openFunction_frames (f : Lir.Function) (signature : Signature) :
    Frames (openFunction f signature) := by
  refine (Frames.build _).bind fun s => (Frames.build _).bind fun functionType => ?_
  refine (Frames.build _).bind fun _ => (Frames.build _).bind fun params => ?_
  refine .bind (.get fun a => ?_) fun _ => .bind ?_ fun _ => .pure _
  · split
    · exact .build _
    · exact .pure _
  · unfold publish
    split
    · exact .get fun a => .build _
    · exact .build _

theorem returnBlock_frames (f : Lir.Function) : Frames (returnBlock f) := by
  refine .get fun a => ?_
  split
  · exact (Frames.build _).bind fun id => .pure _
  · exact .pure _

variable {f : Lir.Function} {signature : Signature}

/-- Ahead of a body only arrays are named. -/
theorem prepare_frame {r : List Id × Option Id} (h : prepare f signature a = .ok r a') :
    ∃ session arrays, { a with session, symbols := { arrays }, stage := .inBlock } = a' := by
  replace h := modify_bind_ok.1 h
  obtain ⟨_, _, harrays, h⟩ := bind_ok.1 h
  obtain ⟨_, _, rfl⟩ := (Frames.forM _ groupArray_frames _).ok harrays
  replace h := modify_bind_ok.1 h
  obtain ⟨_, _, hopen, h⟩ := bind_ok.1 h
  obtain ⟨_, _, rfl⟩ := (openFunction_frames _ _ _).ok hopen
  obtain ⟨_, _, hfresh, h⟩ := bind_ok.1 h
  obtain ⟨_, _, rfl⟩ := (Frames.build _ _).ok hfresh
  obtain ⟨_, _, hlabel, h⟩ := bind_ok.1 h
  obtain ⟨_, _, rfl⟩ := (Frames.build _ _).ok hlabel
  replace h := modify_bind_ok.1 h
  obtain ⟨_, _, hreturn, h⟩ := bind_ok.1 h
  obtain ⟨session, arrays, rfl⟩ := (returnBlock_frames _ _).ok hreturn
  obtain ⟨_, rfl⟩ := pure_ok.1 h
  exact ⟨session, arrays, rfl⟩

/-- A function is prepared, its body is emitted, and the function is closed. -/
theorem define_cases (h : define f entry signature a = .ok u a') :
    ∃ params target a₁ b d, prepare f signature a = .ok (params, target) a₁ ∧
      Emit.body a₁.assembled entry params ⟨a₁.settings, f, a₁.builtins, a₁.callees, target⟩
        ⟨a₁.session, a₁.symbols⟩ = .ok () b ∧ b.session.draft.closeFunction = .ok d ∧
      a' = { a₁ with
        session := { b.session with draft := d }
        symbols := b.symbols
        kernels := if f.isKernel then a₁.kernels ++ [(f.name, signature.id)] else a₁.kernels
        assembled := a₁.assembled + 1
        stage := .functionClosed } := by
  obtain ⟨⟨params, target⟩, a₁, hprepare, h⟩ := bind_ok.1 h
  replace h := get_bind_ok.1 h
  obtain ⟨_, _, hbody, h⟩ := bind_ok.1 h
  obtain ⟨b, hemit, rfl⟩ := inFunction_ok.1 hbody
  obtain ⟨_, _, hplace, h⟩ := build_bind_ok h
  obtain ⟨d, hd, rfl⟩ := onDraft_ok hplace
  cases modify_ok.1 h
  exact ⟨params, target, a₁, b, d, hprepare, hemit, hd, rfl⟩

theorem define_callees (h : define f entry signature a = .ok u a') : a'.callees = a.callees := by
  obtain ⟨_, _, _, _, _, hprepare, -, -, rfl⟩ := define_cases h
  obtain ⟨_, _, rfl⟩ := prepare_frame hprepare
  rfl

/-- Once there is a header, a function is declared and then defined. -/
theorem function_ok (ha : a.stage ≠ .empty) (h : function f a = .ok u a') :
    ∃ entry signature a₁, f.entry? = some entry ∧ declare f a = .ok signature a₁ ∧
      define f entry signature a₁ = .ok u a' := by
  obtain ⟨_, _, hname, h⟩ := bind_ok.1 h
  obtain ⟨-, rfl⟩ := ofExcept_ok.1 hname
  replace h := get_bind_ok.1 h
  rw [if_neg ha] at h
  obtain ⟨_, -, h⟩ := look_ok expectStage_ok h
  cases hentry : f.entry? with
  | none =>
    rw [hentry] at h
    exact absurd h throw_ok
  | some entry =>
    rw [hentry] at h
    dsimp only at h
    split at h
    · exact absurd h throw_ok
    · obtain ⟨signature, a₁, hdeclare, h⟩ := bind_ok.1 h
      exact ⟨entry, signature, a₁, rfl, hdeclare, h⟩

end Assemble

end KernelForge.Codegen
