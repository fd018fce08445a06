import KernelForge.Proofs.Layout.Function
import KernelForge.Proofs.Unnamed

/-!
# What every function leaves alone

A body is put together from few kinds of steps. Those of straight code keep every invariant of
sessions that `Session.Frame` describes; with one invariant for each phase of a block
(`Session.Phases`) they lead from the first block to the end of the body (`Emit.body_leads`). So,
whatever a function is, its body adds declarations to the session and changes nothing else outside
the function (`Session.Continues`). On the same way every step is seen to do the same for settings
without debug names, but for the names.
-/

namespace KernelForge.Codegen

open List hiding get modify
open Lir (Kind ValueId BlockId)
open Spirv

/-- A later session of the same module and the same open function, which may have more
blocks. -/
structure Session.Continues (s s' : Session) : Prop extends s.Publishes [] s' where
  function : ∀ f, s.draft.function = some f →
    ∃ added, s'.draft.function = some { f with blocks := f.blocks ++ added }

namespace Session.Continues

variable {s s' s'' : Session}

theorem trans (h : s.Continues s') (h' : s'.Continues s'') : s.Continues s'' where
  toPublishes := by simpa using h.toPublishes.trans h'.toPublishes
  function f hf := by
    obtain ⟨added, hadded⟩ := h.function f hf
    obtain ⟨added', hadded'⟩ := h'.function _ hadded
    exact ⟨added ++ added', by simp [hadded']⟩

/-- Going on with a draft of the same module and function. -/
theorem withDraft {d : Draft} (hm : d.module = s.draft.module)
    (hf : d.function = s.draft.function) : s.Continues { s with draft := d } where
  toPublishes := .withDraft hm
  function f hopen := ⟨[], by rw [append_nil]; exact hf.trans hopen⟩

theorem ofAdds {c : List Instruction} (h : s.Adds c s') : s.Continues s' where
  toGrows := h.toGrows
  functions := h.draft.functions
  entryPoints := by simp [h.draft.entryPoints]
  function f hopen := ⟨[], by rw [append_nil]; exact h.draft.function.trans hopen⟩

end Session.Continues

/-- Opcodes of the instructions that a device carries out. -/
abbrev Carried (op : Opcode) : Prop := Device.isExecutable op = true

/-- An invariant of sessions that the steps of straight code keep, if the instructions they append
have certain opcodes. -/
class Session.Frame (P : outParam (Opcode → Prop)) (I : Session → Prop) : Prop where
  fresh : Preserves I Build.fresh
  typeOf : ∀ k, Preserves I (Build.typeOf k)
  constant : ∀ text k, Preserves I (Build.constant text k)
  pointerToType : ∀ pointee storage, Preserves I (Build.pointerToType pointee storage)
  arrayOf : ∀ k length, Preserves I (Build.arrayOf k length)
  append : ∀ {i}, P i.opcode → Preserves I (Build.append i)
  name : ∀ target text, Preserves I (Build.name target text)

/-- An invariant that the opening and the end of blocks keep too. -/
class Session.Flow (I : Session → Prop) : Prop extends Session.Frame Carried I where
  openBlock : ∀ id, Preserves I (Build.place ⟨.label, none, some id, []⟩)
  terminate : ∀ {op} operands, op.isTerminator = true → Carried op →
    Preserves I (Build.place ⟨op, none, none, operands⟩)

variable {s s' : Session} {op : Opcode} {operands : List Operand} {P Q : Opcode → Prop}
  {I J K : Session → Prop} {α β : Type}

namespace Session.Frame

/-- What appended instructions of certain opcodes keep, whatever is declared. -/
theorem ofAdds (h : ∀ {c : List Instruction} {s s' : Session}, s.Adds c s' →
    (∀ i ∈ c, P i.opcode) → I s → I s') : Session.Frame P I where
  fresh _ _ _ hrun := h (Build.fresh_quiet hrun).adds (forall_mem_nil _)
  typeOf _ _ _ _ hrun := h (Build.typeOf_ok hrun).1 (forall_mem_nil _)
  constant _ _ _ _ _ hrun := h (Build.constant_ok hrun).1 (forall_mem_nil _)
  pointerToType _ _ _ _ _ hrun := h (Build.pointerToType_ok hrun).1 (forall_mem_nil _)
  arrayOf _ _ _ _ _ hrun := h (Build.arrayOf_ok hrun).1 (forall_mem_nil _)
  append hi _ _ _ hrun := h (Build.append_ok hrun).adds (forall_mem_singleton.2 hi)
  name _ _ _ _ _ hrun := h (Build.place_quiet (.inr rfl) hrun).adds (forall_mem_nil _)

theorem mono [h : Session.Frame P I] (hQ : ∀ op, Q op → P op) : Session.Frame Q I :=
  { h with append := fun hi => h.append (hQ _ hi) }

end Session.Frame

open Session (Frame)

namespace Build

variable [hI : Frame P I]

include hI

theorem pointerTo_stays (k : Kind) (storage : StorageClass) : Preserves I (pointerTo k storage) :=
  (Frame.typeOf k).bind fun _ => Frame.pointerToType _ _

theorem append_stays {i : Instruction} (h : P i.opcode) (id : Id) :
    Preserves I (do append i; return id) :=
  (Frame.append h).bind fun _ => .pure _

theorem emit_stays (hop : P op) (type : Id) (operands : List Operand) :
    Preserves I (emit op type operands) :=
  Preserves.bind Frame.fresh fun _ => append_stays hop _

theorem emitMath_stays (h : P .extInst) (type : Id) (id : Option Id) (number : Nat)
    (operands : List Operand) : Preserves I (emitMath type id number operands) := by
  intro s r s' hrun
  obtain ⟨set, -, hrun⟩ := look_ok importedSet_ok hrun
  cases id with
  | some id => exact append_stays h id hrun
  | none => exact Preserves.bind Frame.fresh (fun _ => append_stays h _) hrun

end Build

namespace Emit

variable {scope : Scope} {selection : Select α}

/-- What a successful step makes of its session, and that it does the same without names. -/
structure Leads (scope : Scope) (I : Session → Prop) (x : Emit α) (J : Session → Prop) : Prop where
  leads : ∀ ⦃b a b'⦄, x scope b = .ok a b' → I b.session → J b'.session
  silent : Mirrors Body.unnamed (x scope) (x scope.unnamed)

abbrev Stays (scope : Scope) (I : Session → Prop) (x : Emit α) : Prop := Leads scope I x I

namespace Leads

variable {x : Emit α} {l : List β}

theorem pure (a : α) : Stays scope I (Pure.pure a : Emit α) :=
  ⟨fun _ _ _ h hb => (pure_ok.1 h).2 ▸ hb, ⟨fun _ => rfl⟩⟩

theorem fail (e : Error) : Leads scope I (Emit.fail e : Emit α) J :=
  ⟨fun _ _ _ h => absurd h throw_ok, ⟨fun _ => rfl⟩⟩

theorem bind {f : α → Emit β} (hx : Leads scope I x J) (hf : ∀ a, Leads scope J (f a) K) :
    Leads scope I (x >>= f) K := by
  refine ⟨fun b c b' h hb => ?_, Mirrors.bind (m := hx.silent) (h := fun a => (hf a).silent)⟩
  obtain ⟨a, b₁, hfirst, h⟩ := bind_ok.1 h
  exact (hf a).leads h (hx.leads hfirst hb)

/-- A failure comes, whatever is appended before. -/
theorem thenFail (e : Error) (hx : Mirrors Body.unnamed (x scope) (x scope.unnamed)) :
    Leads scope I (x >>= fun _ => (Emit.fail e : Emit β)) J :=
  bind (J := fun _ => True) ⟨fun _ _ _ _ _ => trivial, hx⟩ fun _ => fail e

theorem get {g : Body → Emit α} (h : ∀ b, Leads scope I (g b) J)
    (hg : ∀ b, g b.unnamed = g b := by exact fun _ => rfl) :
    Leads scope I (MonadState.get >>= g) J where
  leads b _ _ hrun := (h b).leads hrun
  silent := ⟨fun b => (congrFun (congrFun (hg b) _) _).trans ((h b).silent.run b)⟩

theorem read {g : Scope → Emit α} (h : Leads scope I (g scope) J)
    (hg : g scope.unnamed = g scope := by rfl) : Leads scope I (MonadReader.read >>= g) J where
  leads := h.leads
  silent := ⟨fun b => (congrFun (congrFun hg _) _).trans (h.silent.run b)⟩

theorem note (g : Symbols → Symbols) :
    Stays scope I (modify fun b => { b with symbols := g b.symbols }) := by
  refine ⟨fun b a b' hrun hb => ?_, ⟨fun _ => rfl⟩⟩
  rwa [← modify_ok.1 hrun]

theorem build {step : Build α} [Build.Blind step] (h : Moves I step J) :
    Leads scope I (Emit.build step) J := by
  refine ⟨fun b a b' hrun => ?_, within_mirrors (fun _ => rfl) fun _ _ => rfl⟩
  obtain ⟨session, hstep, rfl⟩ := (build_ok scope).1 hrun
  exact h hstep

theorem ofExcept (e : Except Error α) : Stays scope I (MonadExcept.ofExcept e : Emit α) := by
  cases e with
  | ok a => exact pure a
  | error e => exact fail e

theorem mapM {g : β → Emit α} (h : ∀ c, Stays scope I (g c)) : Stays scope I (l.mapM g) := by
  induction l with
  | nil => exact pure []
  | cons c l ih =>
    rw [mapM_cons]
    exact (h c).bind fun _ => ih.bind fun _ => pure _

theorem forM {g : β → Emit PUnit} (h : ∀ c, Stays scope I (g c)) : Stays scope I (l.forM g) := by
  induction l with
  | nil => exact pure _
  | cons c l ih => exact (h c).bind fun _ => ih

theorem weaken (h : Leads scope J x K) (hI : ∀ {s}, I s → J s) : Leads scope I x K :=
  ⟨fun _ _ _ hrun hb => h.leads hrun (hI hb), h.silent⟩

end Leads

/-! ## Straight code -/

theorem kindOf_stays (v : ValueId) : Stays scope I (kindOf v) := by
  refine .read ?_
  split
  · exact .pure _
  · exact .fail _

theorem slotOf_stays (v : ValueId) : Stays scope I (slotOf v) := by
  refine .bind (.read (.pure _)) fun spill => ?_
  split
  · exact .get fun _ => .pure _
  · exact .pure _

theorem checkIncoming_stays (block : BlockId) (preds : List BlockId) (m : Merge) :
    Stays scope I (checkIncoming block preds m) := by
  unfold checkIncoming
  split
  · exact .fail _
  · exact .pure _

theorem temp_stays (ids : List Id) (t : Temp) : Stays scope I (temp ids t) := by
  unfold temp
  split
  · exact .pure _
  · exact .fail _

theorem arg_stays (ids : List Id) (a : Arg) : Stays scope I (arg ids a) := by
  cases a with
  | value t => exact (temp_stays ids t).bind fun _ => .pure _
  | literal | access => exact .pure _

section Frames

variable [hI : Frame P I]

include hI

/-- An id that the names of a function have for something, or else a new one. -/
theorem pick_stays {g : Body → Id × Body}
    (hg : ∀ b, ((g b).2.session = b.session ∨ (g b).2.session = b.fresh.2.session) ∧
      g b.unnamed = ((g b).1, (g b).2.unnamed)) : Stays scope I (modifyGet g) := by
  refine ⟨fun b id b' h hb => ?_, .modifyGet fun b => (hg b).2⟩
  have hsession := (hg b).1
  rw [modifyGet_ok.1 h] at hsession
  rcases hsession with hsame | hfresh
  · rwa [hsame]
  · rw [hfresh]
    exact Frame.fresh rfl hb

theorem label_stays (block : BlockId) : Stays scope I (label block) := by
  refine pick_stays fun b => ?_
  dsimp only [Body.label]
  cases b.symbols.labels.get? block with
  | some => exact ⟨.inl rfl, rfl⟩
  | none => exact ⟨.inr rfl, rfl⟩

theorem resultFor_stays (v : ValueId) : Stays scope I (resultFor v) := by
  refine pick_stays fun b => ?_
  dsimp only [Body.resultId]
  cases b.symbols.reserved.get? v with
  | some => exact ⟨.inl rfl, rfl⟩
  | none => exact ⟨.inr rfl, rfl⟩

theorem reserve_stays (v : ValueId) : Stays scope I (modifyGet fun b => b.reserve v) := by
  refine pick_stays fun b => ?_
  dsimp only [Body.reserve]
  cases b.symbols.reserved.get? v with
  | some => exact ⟨.inl rfl, rfl⟩
  | none => exact ⟨.inr rfl, rfl⟩

-- the only step that the settings for names decide
theorem debugName_stays (id : Id) (text : String) : Stays scope I (debugName id text) := by
  have hrun : debugName id text scope = (if scope.settings.debugNames then
      Emit.build (Build.name id text) else Pure.pure ()) scope := rfl
  have hname : Mirrors Body.unnamed (Emit.build (Build.name id text) scope) (Pure.pure ()) :=
    within_mirrors (y := Pure.pure ()) (fun _ => rfl) fun _ _ => rfl
  refine ⟨?_, ⟨fun b => ?_⟩⟩ <;> rw [hrun] <;> split
  · intro b u b' h
    obtain ⟨session, hstep, rfl⟩ := (build_ok scope).1 h
    exact Frame.name _ _ hstep
  · exact (Leads.pure ()).leads
  · exact hname.run b
  · rfl

theorem typeOf_stays (k : Kind) : Stays scope I (typeOf k) := .build (Frame.typeOf k)

theorem define_stays (h : P .store) (v : ValueId) (id : Id) : Stays scope I (define v id) := by
  refine .bind (.note (·.define v id)) fun _ => (slotOf_stays v).bind fun slot => ?_
  cases slot with
  | some => exact .build (Frame.append h)
  | none => exact .pure _

theorem mergeValue_stays (merged : List (ValueId × Id)) (predCount : Nat) (dst : ValueId)
    (k : Kind) (o : Lir.Operand) : Stays scope I (mergeValue merged predCount dst k o) := by
  cases o with
  | const => exact .build (Frame.constant _ _)
  | var v =>
    simp only [mergeValue]
    split
    · exact .pure _
    · refine .get fun b => ?_
      split
      · exact .pure _
      · split
        · exact reserve_stays v
        · exact .fail _

theorem merge_stays (h : P .phi) (merged : List (ValueId × Id)) (predCount : Nat) (m : Merge)
    (result : Id) : Stays scope I (merge merged predCount m result) := by
  refine (kindOf_stays _).bind fun k => (typeOf_stays k).bind fun type => ?_
  have hpairs : Stays scope I (mergePairs merged predCount m.1 k m.2) :=
    .mapM fun e => (mergeValue_stays _ _ _ _ _).bind fun _ => (label_stays _).bind fun _ => .pure _
  refine hpairs.bind fun pairs => ?_
  split
  · exact .fail _
  · exact .build (Frame.append h)

theorem privateStorage_stays (h : P .variableDecl) : Stays scope I privateStorage := by
  have hvariable (pointer : Id) : Stays scope I (build (Build.localVariable pointer)) :=
    .build (Build.emit_stays h _ _)
  refine .read (.bind (.forM fun a => ?_) fun _ => .bind (.read (.pure _)) fun spill => ?_)
  · refine Leads.bind (.build (Frame.arrayOf _ _)) fun type => ?_
    refine Leads.bind (.build (Frame.pointerToType _ _)) fun _ => (hvariable _).bind fun id => ?_
    exact .note fun t =>
      { t with arrays := t.arrays.insert a.id ⟨id, a.element, a.length, .perItem⟩ }
  · split
    · refine .forM fun e => .bind (.build (Build.pointerTo_stays _ _)) fun _ => ?_
      exact (hvariable _).bind fun slot => (debugName_stays _ _).bind fun _ =>
        .note fun t => { t with slots := t.slots.insert e.1 slot }
    · exact .pure _

variable (hP : ∀ op, isOrdinary op = true → P op)

include hP

omit hI in
/-- The opcode of a plain line is allowed, and any other if all are. -/
theorem allowed (h : isPlain op = true ∨ ∀ op, P op) : P op :=
  h.elim (fun hplain => hP op (ordinary_of_plain hplain)) (· op)

theorem use_stays (v : ValueId) : Stays scope I (use v) := by
  refine (slotOf_stays v).bind fun slot => ?_
  cases slot with
  | some =>
    exact (kindOf_stays v).bind fun k => (typeOf_stays k).bind fun type =>
      .build (Build.emit_stays (hP _ rfl) _ _)
  | none => exact .get fun _ => .ofExcept _

theorem defineAs_stays (v : ValueId) (hop : P op) (type : Id) (operands : List Operand) :
    Stays scope I (defineAs v op type operands) :=
  (resultFor_stays v).bind fun _ => Leads.bind (.build (Frame.append hop)) fun _ =>
    define_stays (hP _ rfl) _ _

theorem forward_stays (v : ValueId) (id : Id) : Stays scope I (forward v id) := by
  refine .get fun b => ?_
  split
  · exact (kindOf_stays v).bind fun k => (typeOf_stays k).bind fun _ =>
      defineAs_stays hP _ (hP _ rfl) _ _
  · exact define_stays (hP _ rfl) _ _

theorem expr_stays (ids : List Id) {e : Expr} (he : Line.plain (.value e) = true ∨ ∀ op, P op) :
    Stays scope I (expr ids e) := by
  cases e with
  | use v => exact use_stays hP v
  | constant => exact .build (Frame.constant _ _)
  | type k => exact typeOf_stays k
  | pointer k storage => exact .build (Build.pointerTo_stays k storage)
  | array =>
    refine .get fun b => ?_
    split
    · exact .pure _
    · exact .fail _
  | coordinate | callee =>
    refine .read ?_
    split
    · exact .pure _
    · exact .fail _
  | instr op type =>
    exact (temp_stays ids type).bind fun _ => (Leads.mapM (arg_stays ids)).bind fun _ =>
      .build (Build.emit_stays (allowed hP he) _ _)
  | math op type =>
    exact (temp_stays ids type).bind fun _ => (Leads.mapM (arg_stays ids)).bind fun _ =>
      .build (Build.emitMath_stays (hP _ rfl) _ _ _ _)

theorem effect_stays (ids : List Id) {e : Effect}
    (he : Line.plain (.effect e) = true ∨ ∀ op, P op) : Stays scope I (effect ids e) := by
  cases e with
  | perform op =>
    exact (Leads.mapM (arg_stays ids)).bind fun _ =>
      .build (Frame.append (allowed hP he))
  | define v op type =>
    exact (temp_stays ids type).bind fun _ => (Leads.mapM (arg_stays ids)).bind fun _ =>
      defineAs_stays hP _ (allowed hP he) _ _
  | defineMath v op type =>
    refine (temp_stays ids type).bind fun _ => (Leads.mapM (arg_stays ids)).bind fun _ => ?_
    exact (resultFor_stays v).bind fun _ => .bind
      (.build (Build.emitMath_stays (hP _ rfl) _ _ _ _)) fun _ => define_stays (hP _ rfl) _ _
  | forward v t => exact (temp_stays ids t).bind fun _ => forward_stays hP _ _

theorem lines_stays (ids : List Id) {ls : List Line} (hls : ∀ l ∈ ls, l.plain = true ∨ ∀ op, P op) :
    Stays scope I (lines ids ls) := by
  induction ls generalizing ids with
  | nil => exact .pure _
  | cons l ls ih =>
    obtain ⟨hl, hrest⟩ := forall_mem_cons.1 hls
    cases l with
    | value => exact (expr_stays hP ids hl).bind fun id => ih _ hrest
    | effect => exact (effect_stays hP ids hl).bind fun _ => ih _ hrest

end Frames

/-- A selection that writes lines a device carries out. -/
def WritesPlain (selection : Select α) : Prop :=
  ∀ ⦃view r a r'⦄, selection view r = .ok a r' →
    ∃ ls, r'.lines = r.lines ++ ls ∧ ∀ l ∈ ls, l.plain = true

theorem writesPlain_of {uses defs : List ValueId} {Q : α → Prop}
    (h : selection.Writes uses defs Q) : WritesPlain selection := by
  intro view r a r' hrun
  obtain ⟨-, ls, hls, -, -, hplain⟩ := h hrun
  exact ⟨ls, hls, hplain⟩

theorem params_plain : WritesPlain Select.params := by
  intro view r u r' hrun
  obtain ⟨ls, hls, -, -, hplain⟩ := Select.params_ok hrun
  exact ⟨ls, hls, hplain⟩

section Frames

variable [Frame P I] (hP : ∀ op, isOrdinary op = true → P op)

include hP

theorem recipe_stays (given : List Id) (h : WritesPlain selection) :
    Stays scope I (recipe given selection) := by
  refine .read (.get fun b => ?_)
  split
  · next hrun =>
    obtain ⟨ls, hls, hplain⟩ := h hrun
    rw [hls]
    exact (lines_stays hP _ fun l hl => .inl (hplain l hl)).bind fun _ => .pure _
  · have : Frame (fun _ => True) fun _ => True := .ofAdds fun _ _ _ => trivial
    exact .thenFail _ (lines_stays (I := fun _ => True) (fun _ _ => trivial) _
      fun _ _ => .inr fun _ => trivial).silent

theorem op_stays (o : Lir.Op) : Stays scope I (Emit.op o) :=
  (recipe_stays hP _ (writesPlain_of (Select.op_writes o))).bind fun _ => .pure _

theorem selected_stays {selection : Select Temp} (h : WritesPlain selection) :
    Stays scope I (selected selection) :=
  (recipe_stays hP _ h).bind fun _ => temp_stays _ _

end Frames

end Emit

/-! ## Phases of a body -/

/-- Where a body stands: variables are declared ahead in the first block and merges in any other,
then instructions follow, and a loop may be announced before the end of a block. -/
inductive Phase
  | storage
  | merging
  | inner (first : Bool)
  | announced
  | shut

namespace Phase

def Allows : Phase → Opcode → Prop
  | storage, op => op = .variableDecl
  | merging, op => op = .phi
  | inner _, op => isOrdinary op = true
  | announced, _ | shut, _ => False

theorem carried (phase : Phase) (op : Opcode) (h : phase.Allows op) : Carried op := by
  cases phase with
  | storage | merging =>
    rw [show op = _ from h]
    rfl
  | inner =>
    have hstraight := straight_of_ordinary h
    simp only [isStraight, Bool.and_eq_true] at hstraight
    exact hstraight.1.1
  | announced | shut => exact h.elim

end Phase

/-- An invariant for each phase, and the steps from one to the next. -/
structure Session.Phases (J : Phase → Session → Prop) : Prop where
  frame : ∀ phase, Frame phase.Allows (J phase)
  stored : ∀ {s}, J .storage s → J (.inner true) s
  merged : ∀ {s}, J .merging s → J (.inner false) s
  plain : ∀ {s}, J (.inner false) s → J .announced s
  announce : ∀ operands,
    Moves (J (.inner false)) (Build.append ⟨.loopMerge, none, none, operands⟩) (J .announced)
  openBlock : ∀ id, Moves (J .shut) (Build.place ⟨.label, none, some id, []⟩) (J .merging)
  terminate : ∀ {first op} operands, op.isTerminator = true → Carried op →
    Moves (J (.inner first)) (Build.place ⟨op, none, none, operands⟩) (J .shut)
  branch : ∀ operands,
    Moves (J .announced) (Build.place ⟨.branchConditional, none, none, operands⟩) (J .shut)

theorem Session.Flow.phases [h : Session.Flow I] : Session.Phases fun _ => I where
  frame phase := .mono phase.carried
  stored hs := hs
  merged hs := hs
  plain hs := hs
  announce _ := Frame.append (show Carried .loopMerge from rfl)
  openBlock := h.openBlock
  terminate := h.terminate
  branch operands := h.terminate operands rfl rfl

namespace Emit

variable {scope : Scope} {J : Phase → Session → Prop} (hJ : Session.Phases J)

include hJ

theorem merges_leads (block : Lir.Block) :
    Leads scope (J .merging) (merges block) (J (.inner false)) := by
  have := hJ.frame
  refine .read ?_
  refine (Leads.forM fun m => checkIncoming_stays _ _ m).bind fun _ => ?_
  refine (Leads.mapM fun m => resultFor_stays _).bind fun results => ?_
  refine (Leads.forM fun e => merge_stays (P := Phase.Allows .merging) rfl _ _ _ _).bind fun _ => ?_
  exact (Leads.forM fun e => define_stays (P := Phase.Allows (.inner false)) rfl _ _).weaken
    hJ.merged

theorem loopHint_leads (hint : Option Lir.LoopHint) :
    Leads scope (J (.inner false)) (loopHint hint) (J .announced) := by
  have := hJ.frame
  cases hint with
  | none => exact (Leads.pure _).weaken hJ.plain
  | some => exact (label_stays _).bind fun _ => (label_stays _).bind fun _ => .build (hJ.announce _)

theorem terminate_leads {first : Bool} (hop : op.isTerminator = true) (hp : Carried op)
    (operands : List Operand) : Leads scope (J (.inner first)) (terminate op operands) (J .shut) :=
  have : Same op.isName false := ⟨by cases op <;> first | rfl | cases hop⟩
  .build (hJ.terminate operands hop hp)

theorem terminator_leads (t : Lir.Terminator) :
    Leads scope (J (.inner false)) (terminator t) (J .shut) := by
  have := hJ.frame
  have hselected {selection : Select Temp} (h : WritesPlain selection) :
      Stays scope (J (.inner false)) (selected selection) := selected_stays (fun _ h => h) h
  cases t with
  | jump => exact (label_stays _).bind fun _ => terminate_leads hJ rfl rfl _
  | branch cond onTrue onFalse hint =>
    refine (hselected (writesPlain_of (Select.condition_fetches cond))).bind fun _ => ?_
    refine (label_stays _).bind fun _ => (label_stays _).bind fun _ => ?_
    exact (loopHint_leads hJ hint).bind fun _ => .build (hJ.branch _)
  | switch selector =>
    refine (recipe_stays (fun _ h => h) _
      (writesPlain_of (Select.selector_fetches selector))).bind fun r => ?_
    refine (temp_stays _ _).bind fun _ => (label_stays _).bind fun _ => ?_
    refine (Leads.mapM fun c => ?_).bind fun _ => terminate_leads hJ rfl rfl _
    exact (label_stays _).bind fun _ => .pure _
  | ret value =>
    cases value with
    | none =>
      refine .read ?_
      split <;> exact terminate_leads hJ rfl rfl _
    | some value =>
      refine .read ?_
      dsimp only
      split
      · exact .fail _
      · have hvalue := Select.operandAs_fetches (o := value) scope.function.returnKind
          (List.Subset.refl _)
        exact (hselected (writesPlain_of hvalue)).bind fun _ => terminate_leads hJ rfl rfl _
  | unreachable => exact terminate_leads hJ rfl rfl _

theorem block_leads (ordinal : Nat) (block : Lir.Block) :
    Leads scope (J .shut) (Emit.block ordinal block) (J .shut) := by
  have := hJ.frame
  refine (label_stays _).bind fun id => .bind (.build (hJ.openBlock id)) fun _ => ?_
  refine (debugName_stays _ _).bind fun _ => (merges_leads hJ block).bind fun _ => ?_
  exact (Leads.forM (op_stays fun _ h => h)).bind fun _ => terminator_leads hJ _

theorem returnBlock_leads : Leads scope (J .shut) returnBlock (J .shut) := by
  refine .read ?_
  split
  · exact .pure _
  · exact .bind (.build (hJ.openBlock _)) fun _ => (terminate_leads hJ rfl rfl _).weaken hJ.merged

/-- The body of a function leads from its first block to its end, whatever the function is. -/
theorem body_leads (ordinal : Nat) (entry : BlockId) (params : List Id) :
    Leads scope (J .storage) (body ordinal entry params) (J .shut) := by
  have := hJ.frame
  have hprologue : Leads scope (J .storage) (prologue entry params) (J .shut) := by
    refine (privateStorage_stays (P := Phase.Allows .storage) rfl).bind fun _ =>
      .weaken ?_ hJ.stored
    refine (recipe_stays (fun _ h => h) params params_plain).bind fun _ => ?_
    exact (label_stays _).bind fun _ => terminate_leads hJ rfl rfl _
  refine hprologue.bind fun _ => .read ?_
  refine (Leads.forM (block_leads hJ ordinal)).bind fun _ => (returnBlock_leads hJ).bind fun _ => ?_
  refine .get fun b => ?_
  split
  · exact .pure _
  · exact .fail _

omit hJ

theorem body_stays [Session.Flow I] (ordinal : Nat) (entry : BlockId) (params : List Id) :
    Stays scope I (body ordinal entry params) := body_leads Session.Flow.phases ordinal entry params

end Emit

instance {s₀ : Session} : Session.Flow s₀.Continues where
  toFrame := .ofAdds fun h _ hs => hs.trans (.ofAdds h)
  openBlock _ _ _ _ h hs := by
    rw [Build.openBlock_ok h]
    exact hs.trans (.withDraft rfl rfl)
  terminate _ hop _ _ _ _ h hs := by
    obtain ⟨f, b, hf, _, rfl⟩ := Build.terminate_ok hop h
    refine hs.trans ⟨.withDraft rfl, fun f' hf' => ?_⟩
    rw [hf] at hf'
    cases hf'
    exact ⟨_, rfl⟩

/-! ## Functions -/

namespace Assemble

/-- What every function leaves behind in the assembler. -/
structure Leaves (f : Lir.Function) (signature : Signature) (a a' : Assembler) : Prop where
  functions : ∃ e, e.definition.result = some signature.id ∧
    a'.session.draft.module.functions = a.session.draft.module.functions ++ [e]
  grows : a.session.Grows a'.session
  entryPoints : a'.session.draft.module.entryPoints =
    a.session.draft.module.entryPoints ++ entryPointOf f signature.id a.builtins
  settings : a'.settings = a.settings
  builtins : a'.builtins = a.builtins
  callees : a'.callees = a.callees
  kernels : a'.kernels = a.kernels ++ if f.isKernel then [(f.name, signature.id)] else []

variable {a a' : Assembler} {u : Unit}

theorem define_leaves {f : Lir.Function} {entry : BlockId} {signature : Signature}
    (h : define f entry signature a = .ok u a') : Leaves f signature a a' := by
  obtain ⟨params, target, a₁, b, d, hprepare, hemit, hd, rfl⟩ := define_cases h
  obtain ⟨types, definition, slots, first, hid, _, _, _, hf₁, _, hp₁, hs₁⟩ := prepare_ok hprepare
  have hc := (Emit.body_stays (I := a₁.session.Continues) _ _ _).leads hemit (.withDraft rfl rfl)
  obtain ⟨added, hopen⟩ := hc.function _ hf₁
  simp only [Draft.closeFunction, hopen] at hd
  split at hd
  · next heq => cases heq
  · cases hd
  next e heq _ =>
  cases heq
  cases hd
  refine ⟨⟨⟨definition, (types.zip params).map paramOf, [] ++ added⟩, hid, ?_⟩, ?_, ?_, ?_, ?_,
    ?_, ?_⟩
  · rw [← hp₁.functions, ← hc.functions]
    rfl
  · exact (hp₁.toGrows.trans hc.toGrows).trans (.withDraft (List.Subset.refl _))
  · rw [← hp₁.entryPoints, ← append_nil (a₁.session.draft.module.entryPoints), ← hc.entryPoints]
    rfl
  · rw [hs₁]
  · rw [hs₁]
  · rw [hs₁]
  · rw [hs₁]
    split
    · rfl
    · exact (append_nil _).symm

end Assemble

end KernelForge.Codegen
