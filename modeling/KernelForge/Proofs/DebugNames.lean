import KernelForge.Proofs.Loading.Module

/-!
# Debug names

Settings that ask for names add a section of names to a module and change nothing else: an
assembler without names does what one with names does, and leaves the same but for that section
(`names_aside`).
-/

namespace KernelForge.Codegen

open Lir (Kind BlockId)
open Spirv
open Instruction (isNoName)

set_option synthInstance.maxSize 1000

abbrev Assembler.unnamed (a : Assembler) : Assembler :=
  { a with settings := { a.settings with debugNames := false }, session := a.session.unnamed }

namespace Assemble

variable {α : Type} (f : Lir.Function) (signature : Signature) (id : Id)

/-- A step that does the same with and without names. -/
abbrev Blind (x : Assemble α) : Prop := Mirrors Assembler.unnamed x x

instance {x y : Build α} [Mirrors Session.unnamed x y] :
    Mirrors Assembler.unnamed (build x) (build y) := within_mirrors (fun _ => rfl) fun _ _ => rfl

instance (action : Action) (allowed : List Stage) : Blind (expectStage action allowed) :=
  .look inferInstance

instance : Blind header := by
  unfold header
  infer_instance

instance : Blind (declare f) := .look fun _ => by split <;> infer_instance

instance (array : Lir.ArrayDecl) : Blind (groupArray array) := by
  unfold groupArray
  infer_instance

instance : Build.Blind (shape f) := by unfold shape; split <;> infer_instance

/-- Without names, naming all of them is nothing. -/
instance (l : List (Id × String)) :
    Mirrors Session.unnamed (l.forM fun e => Build.name e.1 e.2) (pure ()) := by
  induction l with
  | nil => exact ⟨fun _ => rfl⟩
  | cons e l ih => exact Mirrors.bind (y := pure ()) (k := fun _ => pure ())

instance (params : List Id) : Blind (debugNames f id params) := by
  refine .see fun a => ?_
  show Mirrors _ (ite _ _ _) (pure ())
  split
  · exact within_mirrors (y := pure ()) (fun _ => rfl) fun _ _ => rfl
  · infer_instance

instance : Blind (publish f id) := by
  unfold publish
  split
  · exact .look fun _ => inferInstance
  · infer_instance

instance : Blind (openFunction f signature) := by
  unfold openFunction
  infer_instance

instance : Blind (returnBlock f) := .look inferInstance

instance : Blind (prepare f signature) := by
  unfold prepare
  infer_instance

theorem inFunction_mirrors {scope : Scope} {steps : Emit α}
    (h : Mirrors Body.unnamed (steps scope) (steps scope.unnamed)) :
    Mirrors Assembler.unnamed (inFunction scope steps) (inFunction scope.unnamed steps) := by
  refine ⟨fun a => ?_⟩
  have hrun := h.run ⟨a.session, a.symbols⟩
  unfold inFunction
  rw [hrun]
  cases steps scope ⟨a.session, a.symbols⟩ <;> rfl

instance (entry : BlockId) : Blind (define f entry signature) := by
  refine .bind (h := fun prepared => .see fun a => ?_)
  -- any invariant will do, for what the body does without names does not depend on it
  have hbody : Emit.Stays ⟨a.settings, f, a.builtins, a.callees, prepared.2⟩
    (Session.Continues {}) (Emit.body a.assembled entry prepared.1) := Emit.body_stays _ _ _
  have := inFunction_mirrors hbody.silent
  unfold close
  infer_instance

instance : Blind (function f) := by
  unfold function
  cases f.entry? <;> exact .bind (h := fun _ => .look fun _ => by dsimp only; infer_instance)

instance : Blind exactKernels := .look inferInstance

/-- All that is done for a module but taking its words. -/
def closed (m : Lir.Module) : Assemble Unit := do
  header
  m.functions.forM fun f => discard (declare f)
  m.functions.forM function
  expectStage .finish [.functionClosed]
  exactKernels
  enter .done

theorem wholeModule_eq (m : Lir.Module) : wholeModule m = (closed m >>= fun _ => do
    let a ← get
    return ⟨a.name, a.session.words, a.kernels.map Prod.fst⟩) := by
  simp only [wholeModule, finish, closed, bind_assoc]

instance (m : Lir.Module) : Blind (closed m) := by
  have (f : Lir.Function) : Blind (discard (declare f)) :=
    (inferInstance : Blind (declare f >>= fun _ => pure ()))
  unfold closed
  infer_instance

/-- A module is refused with and without names, or its words differ by the names. -/
theorem wholeModule_mirrors (m : Lir.Module) (a : Assembler) :
    (∃ e t t', wholeModule m a = .error e t ∧ wholeModule m a.unnamed = .error e t') ∨
    ∃ binary t t', wholeModule m a = .ok binary t ∧
      wholeModule m a.unnamed = .ok { binary with words := t.session.unnamed.words } t' := by
  have hrun : closed m a.unnamed = onState Assembler.unnamed (closed m a) := Mirrors.run a
  rw [wholeModule_eq]
  cases hclosed : closed m a with
  | error e t =>
    rw [hclosed] at hrun
    exact .inl ⟨e, _, _, bind_of_error hclosed, bind_of_error hrun⟩
  | ok u t =>
    rw [hclosed] at hrun
    exact .inr ⟨_, _, _, bind_of_ok hclosed, bind_of_ok hrun⟩

end Assemble

/-! ## Names of a module -/

variable {i : Instruction}

theorem isNoName_of_known {p : Device.Program} (h : p.Knows i) : i.isNoName = true := by
  refine bne_iff_ne.2 fun hname => ?_
  cases h with
  | type hr ht =>
    unfold Device.meaning? at ht
    simp [hname] at ht
  | truth b => cases b <;> cases hname
  | _ => cases hname

theorem isNoName_of_loadable {f : Function} (h : f.Loadable) (hi : i ∈ f.instructions) :
    i.isNoName = true := by
  refine bne_iff_ne.2 fun hname => ?_
  simp only [Function.instructions, Block.instructions, List.mem_append, List.mem_cons,
    List.mem_flatMap, List.not_mem_nil, or_false] at hi
  rcases hi with ((rfl | hi) | ⟨b, hb, rfl | hi⟩) | rfl
  · cases h.definition.1.symm.trans hname
  · cases (h.params i hi).1.symm.trans hname
  · cases (h.blocks b hb).label.1.symm.trans hname
  · cases hname ▸ (h.blocks b hb).body i hi
  · cases hname

/-- Declarations and functions have no names. -/
theorem Session.Loads.unnamed_words {s : Session} (h : s.Loads) :
    s.unnamed.words = s.draft.finish.header ++
      (s.draft.finish.instructions.filter isNoName).flatMap Instruction.words := by
  obtain ⟨p, -, hp, -⟩ := h.evaluates [] {} ⟨rfl, rfl, rfl⟩
  have hglobals : s.draft.module.globals.filter isNoName = s.draft.module.globals :=
    List.filter_eq_self.2 fun i hi => isNoName_of_known (hp.knows i hi)
  have hfunctions : (s.draft.module.functions.flatMap Function.instructions).filter
      isNoName = s.draft.module.functions.flatMap Function.instructions := by
    refine List.filter_eq_self.2 fun i hi => ?_
    obtain ⟨f, hf, hi⟩ := List.mem_flatMap.1 hi
    exact isNoName_of_loadable (h.functions f hf) hi
  simp [Session.words, Draft.finish, Module.words, Module.instructions, Draft.onModule,
    hglobals, hfunctions, Module.header, Option.toList_filter]

/-- **names_aside**: whether settings ask for names decides neither whether a module is assembled
nor with what error it is refused. Assembled without names it is the same module, with the same
ids, bound and instructions in the same order, but for the instructions that are names. -/
theorem names_aside (m : Lir.Module) (target : Target) (settings : CodegenSettings) :
    (∀ e, assemble m target { settings with debugNames := true } = .error e ↔
      assemble m target { settings with debugNames := false } = .error e) ∧
    ∀ binary, assemble m target { settings with debugNames := true } = .ok binary →
      ∃ a, Assemble.wholeModule m (.new m.name target { settings with debugNames := true }) =
          .ok binary a ∧
        let emitted := a.session.draft.finish
        binary.words = emitted.words ∧
        assemble m target { settings with debugNames := false } = .ok { binary with
          words := emitted.header ++
            (emitted.instructions.filter (·.opcode != .name)).flatMap Instruction.words } := by
  have hmirrors := Assemble.wholeModule_mirrors m
    (.new m.name target { settings with debugNames := true })
  rw [show Assembler.unnamed _ = .new m.name target { settings with debugNames := false } from rfl]
    at hmirrors
  simp only [assemble, bind, Except.bind]
  cases m.functions.forM fun f => checkName f.name with
  | error e => simp
  | ok u =>
    rcases hmirrors with ⟨e, a, a', h, h'⟩ | ⟨binary, a, a', h, h'⟩
    · simp [h, h']
    · have hdone := Assemble.wholeModule_completed h
      rw [hdone.loads.unnamed_words] at h'
      simp only [h, h']
      refine ⟨fun _ => ⟨nofun, nofun⟩, fun _ hbinary => ⟨a, ?_⟩⟩
      cases hbinary
      exact ⟨rfl, hdone.words, rfl⟩

end KernelForge.Codegen
