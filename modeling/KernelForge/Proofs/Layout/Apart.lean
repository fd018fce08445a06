import KernelForge.Proofs.Layout.Steady
import KernelForge.Proofs.Ledger.Reopen

/-!
# Ids of a function and ids around it

The instructions of a function have results of their own: no two of them have the same, and none is
the id of a declaration, of a provided variable or of a function (`Apart`). The ledger of the
function says so, for functions of any module.
-/

namespace KernelForge

open List hiding modify

namespace Codegen

open Lir (Kind BlockId)
open Spirv

/-! ## Sessions between functions -/

namespace Build

variable {s s' : Session}

theorem declareBuiltin_outside {pointer id : Id} {q : Lir.ThreadQuery}
    (h : declareBuiltin pointer q s = .ok id s') : s.Outside s' := by
  obtain ⟨r, s₁, hvariable, h⟩ := bind_ok.1 h
  obtain ⟨_, s₂, hfirst, h⟩ := bind_ok.1 h
  obtain ⟨_, s₃, hsecond, h⟩ := bind_ok.1 h
  obtain ⟨_, s₄, hthird, h⟩ := bind_ok.1 h
  obtain ⟨rfl, rfl⟩ := pure_ok.1 h
  obtain ⟨hkept, _⟩ := declareValue_ok hvariable
  exact (((Session.Outside.ofAdds hkept.adds).trans (Assemble.decorate_ok hfirst)).trans
    (Assemble.decorate_ok hsecond)).trans (Assemble.decorate_ok hthird)

theorem declareBuiltins_outside {builtins : Builtins} (h : declareBuiltins s = .ok builtins s') :
    s.Outside s' := by
  obtain ⟨pointer, s₁, hpointer, h⟩ := bind_ok.1 h
  obtain ⟨hadds, -⟩ := pointerTo_ok hpointer
  refine Preserves.foldlM (I := s.Outside) (fun table q => ?_) ∅ h (.ofAdds hadds)
  exact .bind (fun _ _ _ hrun hs => hs.trans (declareBuiltin_outside hrun)) fun _ => .pure _

end Build

/-! ## Steps around a body -/

/-- An invariant of sessions that every step of an assembler keeps, those around a body too. A
variable of the module has a type of pointers that the session remembers. -/
class Session.Around (I : Session → Prop) : Prop extends Session.Flow I where
  functionType : ∀ ret params, Preserves I (Build.functionType ret params)
  globalVariable : ∀ key pointer storage,
    Moves (fun s => s.pointers.get? key = some pointer ∧ I s)
      (Build.globalVariable pointer storage) I
  decorate : ∀ target number operands, Preserves I (Build.decorate target number operands)
  entryPoint : ∀ operands, Preserves I (Build.place ⟨.entryPoint, none, none, operands⟩)
  openFunction : ∀ type id operands,
    Preserves I (Build.place ⟨.function, type, some id, operands⟩)
  param : ∀ type id, Preserves I (Build.place ⟨.functionParameter, some type, some id, []⟩)
  closeFunction : Preserves I (Build.place ⟨.functionEnd, none, none, []⟩)

section Around

open Session (Frame Flow Around)

variable {I : Session → Prop} [Around I] {α : Type}

namespace Build

theorem declareBuiltin_around {key : Id × StorageClass} {pointer id : Id} {q : Lir.ThreadQuery}
    {s s' : Session} (h : declareBuiltin pointer q s = .ok id s')
    (hpointer : s.pointers.get? key = some pointer) (hs : I s) : I s' := by
  obtain ⟨r, s₁, hvariable, h⟩ := bind_ok.1 h
  have hrest : Preserves I (do
      decorate r 11 [.enumerant .builtIn (builtInOf q)]
      decorate r 22 []
      decorate r 41 [.text (linkName q), .enumerant .linkageType 1]
      return r) :=
    (Around.decorate _ _ _).bind fun _ => (Around.decorate _ _ _).bind fun _ =>
      (Around.decorate _ _ _).bind fun _ => .pure _
  exact hrest h (Around.globalVariable _ _ _ hvariable ⟨hpointer, hs⟩)

theorem declareBuiltins_around : Preserves I declareBuiltins := by
  intro s builtins s' h hs
  obtain ⟨pointer, s₁, hpointer, h⟩ := bind_ok.1 h
  obtain ⟨-, type, -, hget⟩ := pointerTo_ok hpointer
  have hs₁ := pointerTo_stays _ _ hpointer hs
  refine (Preserves.foldlM (I := fun s => s.pointers.get? (type, .input) = some pointer ∧ I s)
    (fun table q => ?_) ∅ h ⟨hget, hs₁⟩).2
  refine .bind (fun _ _ _ hrun ⟨hget, hs⟩ => ?_) fun _ => .pure _
  exact ⟨(declareBuiltin_outside hrun).pointers _ _ hget, declareBuiltin_around hrun hget hs⟩

end Build

namespace Assemble

theorem shape_around (f : Lir.Function) : Preserves I (shape f) := by
  unfold shape
  split
  · exact (Build.pointerTo_stays _ _).bind fun _ => (Frame.typeOf _).bind fun _ =>
      (Frame.typeOf _).bind fun _ => .pure _
  · exact (Frame.typeOf _).bind fun _ =>
      (Preserves.mapM fun _ => Frame.typeOf _).bind fun _ => .pure _

/-- The session of an assembler has a property. -/
abbrev Along (I : Session → Prop) (a : Assembler) : Prop := I a.session

omit [Around I] in
theorem build_around {step : Build α} (h : Preserves I step) :
    Preserves (Along I) (build step) := by
  intro a x a' hrun
  obtain ⟨session, hstep, rfl⟩ := build_ok.1 hrun
  exact h hstep

omit [Around I] in
theorem note_around {g : Assembler → Assembler} (h : ∀ a, (g a).session = a.session) :
    Preserves (Along I) (modify g : Assemble PUnit) :=
  .note fun a (ha : I a.session) => by
    show I (g a).session
    rwa [h a]

theorem groupArray_around (array : Lir.ArrayDecl) : Preserves (Along I) (groupArray array) := by
  intro a u a' h ha
  obtain ⟨type, _, harray, h⟩ := build_bind_ok h
  obtain ⟨pointer, s₂, hpointer, h⟩ := build_bind_ok h
  obtain ⟨id, _, hvariable, h⟩ := build_bind_ok h
  obtain ⟨_, _, hdecorate, h⟩ := build_bind_ok h
  cases modify_ok.1 h
  have ha₂ : I s₂ := Frame.pointerToType _ _ hpointer (Frame.arrayOf _ _ harray ha)
  exact Around.decorate _ _ _ hdecorate
    (Around.globalVariable _ _ _ hvariable ⟨(Build.pointerToType_ok hpointer).2, ha₂⟩)

theorem publish_around (f : Lir.Function) (id : Id) : Preserves (Along I) (publish f id) := by
  unfold publish
  split
  · exact .get fun a => build_around (Around.entryPoint _)
  · exact build_around (Around.decorate _ _ _)

theorem openFunction_around (f : Lir.Function) (signature : Signature) :
    Preserves (Along I) (openFunction f signature) := by
  refine (build_around (shape_around f)).bind fun shape => ?_
  refine (build_around (Around.functionType _ _)).bind fun _ => ?_
  refine (build_around (Around.openFunction _ _ _)).bind fun _ => ?_
  have hparam : ∀ type, Preserves I (param type) := fun type =>
    Preserves.bind Frame.fresh fun _ => (Around.param type _).bind fun _ => .pure _
  refine (build_around (.mapM hparam)).bind fun params => ?_
  refine .bind ?_ fun _ => (publish_around f _).bind fun _ => .pure _
  refine .get fun a => ?_
  split
  · exact build_around (.forM fun _ _ => Frame.name _ _)
  · exact .pure _

theorem prepare_around (f : Lir.Function) (signature : Signature) :
    Preserves (Along I) (prepare f signature) := by
  refine .bind (note_around ?_) fun _ => ?_
  · exact fun _ => rfl
  refine (Preserves.forM fun array _ => groupArray_around array).bind fun _ => ?_
  refine .bind (note_around ?_) fun _ => (openFunction_around f signature).bind fun _ => ?_
  · exact fun _ => rfl
  refine (build_around Frame.fresh).bind fun first => ?_
  refine (build_around (Flow.openBlock first)).bind fun _ => ?_
  refine .bind (note_around ?_) fun _ => .bind (.get fun a => ?_) fun _ => .pure _
  · exact fun _ => rfl
  · split
    · exact (build_around Frame.fresh).bind fun _ => .pure _
    · exact .pure _

/-- A function only takes steps that keep the invariant. -/
theorem define_around (f : Lir.Function) (entry : Lir.BlockId) (signature : Signature) :
    Preserves (Along I) (define f entry signature) := by
  refine (prepare_around f signature).bind fun prepared => .get fun a => ?_
  refine Preserves.bind ?_ fun _ =>
    (build_around Around.closeFunction).bind fun _ => note_around fun _ => rfl
  intro a u a' h ha
  obtain ⟨b, hbody, rfl⟩ := inFunction_ok.1 h
  exact (Emit.body_stays _ _ _).leads hbody ha

variable {a : Assembler}

theorem declare_around (f : Lir.Function) : Preserves (Along I) (declare f) := by
  intro a signature a' h ha
  rcases declare_cases h with ⟨-, rfl⟩ | ⟨-, -, rfl⟩
  · exact ha
  · exact Frame.fresh rfl ha

theorem header_around {name : String} {target : Target} {settings : CodegenSettings} {u : Unit}
    (h : header (Assembler.new name target settings) = .ok u a) (hI : I (headed target)) :
    I a.session := by
  obtain ⟨builtins, session, hsession, rfl⟩ := header_cases h
  exact Build.declareBuiltins_around hsession hI

end Assemble

omit [Around I] in
/-- Whatever was assembled, the session has what it had after the header. -/
theorem Assembler.Started.around {a : Assembler} (h : a.Started) :
    ∃ target, ∀ (I : Session → Prop) [Around I], I (Assemble.headed target) → I a.session := by
  induction h with
  | header hrun => exact ⟨_, fun I _ hI => Assemble.header_around hrun hI⟩
  | declare _ hrun ih => exact ih.imp fun _ ha I _ hI => Assemble.declare_around _ hrun (ha I hI)
  | define _ _ _ hrun ih =>
      exact ih.imp fun _ ha I _ hI => Assemble.define_around _ _ _ hrun (ha I hI)

end Around

namespace Assembler

variable {a : Assembler}

theorem headed_declares (target : Target) : (Assemble.headed target).Declares where
  types _ _ h := nomatch h
  pointers _ _ _ h := nomatch h
  arrays _ _ _ h := nomatch h
  constants _ _ _ h := nomatch h

/-- Between functions nothing is open. -/
theorem Started.settled (h : a.Started) :
    a.session.draft.function = none ∧ a.session.draft.block = none := by
  induction h with
  | @header name target settings a u hrun =>
    obtain ⟨builtins, session, hsession, rfl⟩ := Assemble.header_cases hrun
    have hb := Build.declareBuiltins_outside hsession
    exact ⟨hb.function, hb.block⟩
  | @declare a a' f signature _ hrun ih =>
    rcases Assemble.declare_cases hrun with ⟨-, rfl⟩ | ⟨-, -, rfl⟩
    · exact ih
    · exact ih
  | define _ _ _ hrun =>
    obtain ⟨hstage, hshut⟩ := Assemble.define_shut hrun
    exact hshut hstage

end Assembler

/-! ## Ids of a function -/

end Codegen

namespace Spirv

/-- The instructions of a function after its definition. -/
def Function.inner (f : Function) : List Instruction :=
  f.params ++ f.blocks.flatMap Block.instructions

/-- A result of a draft without open function is one of the sections or of a function. -/
theorem count_results_of_shut {d : Draft} (hf : d.function = none) (hb : d.block = none) (id : Id) :
    (results d.instructions).count id = (results d.module.sections).count id +
      (results (d.module.functions.flatMap Function.instructions)).count id := by
  have hall : d.instructions =
      d.module.sections ++ d.module.functions.flatMap Function.instructions := by
    simp [Draft.instructions, hf, hb, Module.instructions, Module.sections]
  rw [hall, results, filterMap_append, count_append]
  rfl

theorem count_results_function {f : Function} {r : Id} (hr : f.definition.result = some r)
    (id : Id) : (results f.instructions).count id = (results f.inner).count id + [r].count id := by
  have hall : f.instructions = f.definition :: f.inner ++ [⟨.functionEnd, none, none, []⟩] := by
    simp [Function.instructions, Function.inner]
  rw [hall, results, filterMap_append, filterMap_cons_some hr, count_append,
    count_cons, count_singleton]
  simp [results]

end Spirv

namespace Codegen

open Lir (BlockId)
open Spirv

/-- The instructions inside a function have results of their own. A block that the
function names and does not have has no label among them. -/
structure Apart (n : Names) (e : Function) : Prop where
  nodup : (results e.inner).Nodup
  globals : ∀ id ∈ results n.session.draft.module.globals, id ∉ results e.inner
  builtins : ∀ query id, n.scope.builtins.get? query = some id → id ∉ results e.inner
  callees : ∀ name signature, n.scope.callees.get? name = some signature →
    signature.id ∉ results e.inner
  labels : ∀ block id, n.symbols.labels.get? block = some id →
    Owns n.scope.function block ∨ id ∉ results e.inner

/-- The ids inside a function are its own. -/
theorem Assemble.define_apart {f : Lir.Function} {entry : BlockId} {signature : Signature}
    {a a' : Assembler} {u : Unit} {e : Function} {target : Option Id} (h : a.Started)
    (hentry : f.entry? = some entry) (hc : a.callees.get? f.name = some signature)
    (hnodup : (f.blocks.map Lir.Block.id).Nodup)
    (hrun : define f entry signature a = .ok u a') (he : e.definition.result = some signature.id)
    (hfunctions : a'.session.draft.module.functions = a.session.draft.module.functions ++ [e]) :
    Apart ⟨⟨a.settings, f, a.builtins, a.callees, target⟩, a'.session, a'.symbols⟩ e := by
  obtain ⟨o₀, done, held, ha⟩ := h.tidy
  have hid : a.Knows signature.id := ha.callees _ (Table.mem_entries_of_get? hc)
  have hbuiltins : ∀ id ∈ a.builtins.values, a.Knows id := ha.builtins
  have hcallees : ∀ e ∈ a.callees.entries, a.Knows e.2.id := ha.callees
  obtain ⟨o, hsince, hsections, hcount, ha₁⟩ := ha.reopen (forall_mem_singleton.2 hid)
  obtain ⟨debts, ha', -, hlabels⟩ := define_settles hentry hnodup ha₁ hid hrun
  rw [append_nil] at ha'
  obtain ⟨hf, hb⟩ := h.settled
  obtain ⟨hstage, hshut⟩ := define_shut hrun
  obtain ⟨hf', hb'⟩ := hshut hstage
  -- what the module had outside functions is still there
  have hmono : ∀ id : Id, (results a.session.draft.module.sections).count id ≤
      (results a'.session.draft.module.sections).count id := by
    intro id
    rw [← hsections]
    exact (ha'.session.sections.filterMap _).count_le _
  have hbalance : ∀ id : Id, (results a'.session.draft.module.sections).count id +
      (results (a.session.draft.module.functions.flatMap Function.instructions)).count id +
      (results e.inner).count id + [signature.id].count id + debts.count id ≤
      Opening.expected a'.session.draft.next id := by
    intro id
    have haccounts := ha'.session.accounts id
    rw [count_results_of_shut hf' hb', hfunctions, flatMap_append, flatMap_cons,
      flatMap_nil, append_nil, results, results, filterMap_append, count_append,
      count_append] at haccounts
    have he' := count_results_function he id
    unfold results at he' ⊢
    omega
  have hold : ∀ id : Id, id < a.session.draft.next → id ∉ results e.inner := by
    intro id hlt
    have hbal := hbalance id
    rw [Opening.expected, if_pos (hsince ▸ hlt), hcount, count_results_of_shut hf hb] at hbal
    have := hmono id
    exact count_eq_zero.1 (by omega)
  have hnew : ∀ id : Id, id ∈ results e.inner →
      (results e.inner).count id = 1 ∧ id ∉ results a'.session.draft.module.sections ∧
        id ∉ debts := by
    intro id hin
    have hge : ¬ id < a.session.draft.next := fun hlt => hold id hlt hin
    have hbal := hbalance id
    rw [Opening.expected, if_neg (hsince ▸ hge)] at hbal
    have hpos := count_pos_iff.2 hin
    have hle : (results a'.session.draft.module.sections).count id + (results e.inner).count id +
        debts.count id ≤ 1 := by
      split at hbal <;> omega
    exact ⟨by omega, count_eq_zero.1 (by omega), count_eq_zero.1 (by omega)⟩
  refine ⟨?_, fun id hglobal hin => ?_, fun query id hq => ?_, fun name s hs => ?_,
    fun block id hl => ?_⟩
  · rw [nodup_iff_count]
    intro id
    by_cases hin : id ∈ results e.inner
    · exact Nat.le_of_eq (hnew id hin).1
    · rw [count_eq_zero.2 hin]
      exact Nat.zero_le 1
  · refine (hnew id hin).2.1 ?_
    obtain ⟨i, hi, hr⟩ := mem_filterMap.1 hglobal
    exact mem_filterMap.2 ⟨i, mem_append_right _ hi, hr⟩
  · exact hold id (hbuiltins id (mem_map.2 ⟨_, Table.mem_entries_of_get? hq, rfl⟩)).has.2
  · exact hold _ (hcallees _ (Table.mem_entries_of_get? hs)).has.2
  · rcases hlabels block id hl with hown | hdebt
    · exact .inl hown
    · exact .inr fun hin => (hnew id hin).2.2 hdebt

end Codegen

end KernelForge
