import KernelForge.Proofs.Loading.Install

/-!
# Capabilities and precisions of a module

A capability is declared when and only when a type that calls for it is. The two stand in different
sections of a module and are written at different times, so the equivalence is an invariant of every
change of a session (`Session.Gated`), and with it that no precision is declared that the target
lacks. An assembled module then declares the capabilities of its header and those that its types
call for, each once, and its kernels are exact when both other precisions are used.
-/

namespace KernelForge

open List

namespace Spirv.Module

/-- A floating-point type of a width is declared. -/
def HasFloat (m : Module) (width : Nat) : Prop :=
  ∃ i ∈ m.globals, i.opcode = .typeFloat ∧ ∃ rest, i.operands = .literal width :: rest

/-- A type that calls for a capability is declared. -/
def Demands (m : Module) (c : Capability) : Prop :=
  ∃ i ∈ m.globals, Codegen.demand i.opcode i.operands = some c

end Spirv.Module

namespace Codegen

open Spirv
open Capability (float16 float64)

/-- The capabilities of every module. -/
def basicCapabilities : List Capability :=
  [Capability.addresses, Capability.linkage, Capability.kernel]

/-- The precisions beyond 32 bits: width and capability. -/
def precisions : List (Nat × Capability) := [(64, float64), (16, float16)]

variable {op : Opcode}

theorem demand_float {width : Nat} {c : Capability} (hc : (width, c) ∈ precisions)
    {operands : List Operand} :
    demand op operands = some c ↔ op = .typeFloat ∧ ∃ rest, operands = .literal width :: rest := by
  simp only [precisions, mem_cons, not_mem_nil, or_false] at hc
  constructor
  · intro h
    unfold demand at h
    rcases hc with ⟨rfl, rfl⟩ | ⟨rfl, rfl⟩ <;>
    split at h <;>
    simp [Capability.int8, Capability.int16, Capability.int64, float16,
      float64, Capability.vector16, Capability.genericPointer] at h ⊢
  · rintro ⟨rfl, rest, rfl⟩
    rcases hc with ⟨rfl, rfl⟩ | ⟨rfl, rfl⟩ <;> rfl

/-- A precision is called for where a type of its width is declared. -/
theorem demands_float {m : Module} {width : Nat} {c : Capability} (hc : (width, c) ∈ precisions) :
    m.Demands c ↔ m.HasFloat width :=
  exists_congr fun _ => and_congr_right fun _ => demand_float hc

/-- Constants and variables call for nothing. -/
theorem demand_of_not_isType (h : isType op = false) (operands : List Operand) :
    demand op operands = none := by
  unfold demand
  split <;> first | cases h | rfl

namespace Session

/-- The capabilities are those of every module and those that declared types call for,
each once, and the target supports them. -/
structure Gated (s : Session) : Prop where
  placed : s.draft.module.capabilities = s.capabilities.map requirement
  once : s.capabilities.Nodup
  called : ∀ c, c ∈ s.capabilities ↔ c ∈ basicCapabilities ∨ s.draft.module.Demands c
  supported : ∀ c, s.draft.module.Demands c → Supports s.target (some c)
  fp64 : s.usesFp64 = true ↔ s.draft.module.Demands float64
  fp16 : s.usesFp16 = true ↔ s.draft.module.Demands float16

variable {s s' : Session} {known : Opcode → Id → Prop} {asked : List Capability}

theorem mem_enable (c : Option Capability) (c' : Capability) :
    c' ∈ (s.enable c).capabilities ↔ c' ∈ s.capabilities ∨ c = some c' := by
  show c' ∈ s.capabilities ++ s.missing c ↔ _
  rw [mem_append, missing, mem_filter]
  by_cases h : c' ∈ s.capabilities <;> simp [h]

theorem enable_nodup (c : Option Capability) (h : s.capabilities.Nodup) :
    (s.enable c).capabilities.Nodup := by
  refine nodup_append.2 ⟨h, ?_, fun c' hc' c'' hc'' heq => ?_⟩
  · cases c with
    | none => exact nodup_nil
    | some => exact .sublist filter_sublist (by simp)
  · have hnot := (mem_filter.1 hc'').2
    rw [← heq] at hnot
    simp [hc'] at hnot

theorem enable_placed (c : Option Capability)
    (h : s.draft.module.capabilities = s.capabilities.map requirement) :
    (s.enable c).draft.module.capabilities = (s.enable c).capabilities.map requirement := by
  show s.draft.module.capabilities ++ (s.missing c).map requirement
    = (s.capabilities ++ s.missing c).map requirement
  rw [h, map_append]

/-- An adopted type calls for its capability, whether it was declared before or not. -/
theorem adopt_demands (op : Opcode) (operands : List Operand) (c : Capability) :
    (s.adopt op operands).draft.module.Demands c ↔
      s.draft.module.Demands c ∨ demand op operands = some c := by
  cases hfound : s.draft.declared? op operands with
  | some =>
    rw [adopt_of_some s op operands hfound]
    refine ⟨.inl, fun h => h.elim (fun h => h) fun h => ?_⟩
    obtain ⟨i, hi, rfl, rfl, -⟩ := declared_of_declared? hfound
    exact ⟨i, hi, h⟩
  | none =>
    unfold Module.Demands
    rw [(adopt_of_none s op operands hfound).1]
    simp only [mem_append, mem_singleton, or_and_right, exists_or, exists_eq_left]

/-- Capabilities stand apart from types. -/
theorem adopt_placed (op : Opcode) (operands : List Operand) :
    (s.adopt op operands).draft.module.capabilities
      = (s.enable (demand op operands)).draft.module.capabilities := by
  unfold adopt Draft.declareType
  split <;> rfl

/-- A constant or variable calls for nothing. -/
theorem Gated.declareValue (hs : s.Gated) (hop : isType op = false) (type : Id)
    (operands : List Operand) :
    ({ s with draft := (s.draft.declareValue op type operands).2 } : Session).Gated := by
  have hdemands : ∀ c, (s.draft.declareValue op type operands).2.module.Demands c ↔
      s.draft.module.Demands c := by
    intro c
    unfold Module.Demands
    show (∃ i ∈ s.draft.module.globals ++ [_], _) ↔ _
    simp [demand_of_not_isType hop]
  refine ⟨hs.placed, hs.once, fun c => ?_, fun c hc => hs.supported c ((hdemands c).1 hc), ?_, ?_⟩
  · rw [hdemands]
    exact hs.called c
  · rw [hdemands]
    exact hs.fp64
  · rw [hdemands]
    exact hs.fp16

/-- A change keeps capabilities and types in step. -/
theorem Change.gated (h : Change known asked s s') (hasked : asked ⊆ basicCapabilities)
    (hs : s.Gated) : s'.Gated := by
  cases h with
  | aside h =>
    have hdemands : ∀ c, s'.draft.module.Demands c ↔ s.draft.module.Demands c := fun c => by
      unfold Module.Demands
      rw [h.globals]
    refine ⟨?_, ?_, fun c => ?_, fun c hc => ?_, ?_, ?_⟩
    · rw [h.placed, h.capabilities, hs.placed]
    · rw [h.capabilities]
      exact hs.once
    · rw [h.capabilities, hdemands]
      exact hs.called c
    · rw [h.target]
      exact hs.supported c ((hdemands c).1 hc)
    · rw [h.usesFp64, hdemands]
      exact hs.fp64
    · rw [h.usesFp16, hdemands]
      exact hs.fp16
  | @enable c hc =>
    refine ⟨enable_placed _ hs.placed, enable_nodup _ hs.once, fun c' => ?_, hs.supported,
      hs.fp64, hs.fp16⟩
    rw [mem_enable, hs.called]
    constructor
    · rintro (h | h)
      · exact h
      · cases h
        exact .inl (hasked hc)
    · exact .inl
  | moduleVariable => exact hs.declareValue rfl _ _
  | answer h =>
    cases h with
    | @adopt op operands hform =>
      have hdemands := adopt_demands (s := s) op operands
      refine ⟨?_, ?_, fun c => ?_, fun c hc => ?_, ?_, ?_⟩
      · rw [adopt_placed]
        exact enable_placed _ hs.placed
      · exact enable_nodup _ hs.once
      · rw [hdemands, ← or_assoc, ← hs.called]
        exact mem_enable _ c
      · rcases (hdemands c).1 hc with hc | hc
        · exact hs.supported c hc
        · exact hc ▸ hform.supports
      · rw [hdemands, ← hs.fp64]
        show (s.usesFp64 || demand op operands == some .float64) = true ↔ _
        rw [Bool.or_eq_true, beq_iff_eq]
      · rw [hdemands, ← hs.fp16]
        show (s.usesFp16 || demand op operands == some .float16) = true ↔ _
        rw [Bool.or_eq_true, beq_iff_eq]
    | @constant _ _ _ type operands hnew hform =>
      have hvalue := hs.declareValue (isType_of_isConstant hform.isConstant) type operands
      exact ⟨hvalue.placed, hvalue.once, hvalue.called, hvalue.supported, hvalue.fp64, hvalue.fp16⟩
    | _ => exact ⟨hs.placed, hs.once, hs.called, hs.supported, hs.fp64, hs.fp16⟩

/-- Capabilities and types stay in step along every chain of changes. -/
theorem Changes.gated (h : s.Changes known asked s') (hasked : asked ⊆ basicCapabilities)
    (hs : s.Gated) : s'.Gated := by
  induction h with
  | refl => exact hs
  | tail _ h ih => exact h.gated hasked ih

end Session

/-! ## Assembled modules -/

theorem headed_gated (target : Target) : (Assemble.headed target).Gated := by
  have hnone : ∀ c, ¬ (Assemble.headed target).draft.module.Demands c := by
    rintro c ⟨i, hi, -⟩
    cases hi
  refine ⟨rfl, ?_, fun c => ⟨.inl, fun h => h.resolve_right (hnone c)⟩,
    fun c hc => absurd hc (hnone c), ⟨nofun, fun h => absurd h (hnone _)⟩,
    ⟨nofun, fun h => absurd h (hnone _)⟩⟩
  show basicCapabilities.Nodup
  decide

namespace Assemble

variable {a a' : Assembler} {u : PUnit} {fs : List Lir.Function} {s₀ : Session} {binary : Binary}

theorem functions_change (h : a.Started) (hfound : ∀ f ∈ fs, ∃ s, a.callees.get? f.name = some s)
    (hrun : fs.forM function a = .ok u a') (ha : s₀.Changes vetted [] a.session) :
    s₀.Changes vetted [] a'.session := by
  have hall : Preserves (fun b => b.Started ∧ b.callees = a.callees ∧
      s₀.Changes vetted [] b.session) (fs.forM function) := by
    refine .forM fun f hf => ?_
    rintro b u b' hrun ⟨hb, hcallees, hs⟩
    obtain ⟨signature, hc⟩ := hcallees ▸ hfound f hf
    obtain ⟨entry, hentry, hdefine⟩ := function_found hb hc hrun
    exact ⟨.define hb hentry hc hdefine, (define_leaves hdefine).callees.trans hcallees,
      define_around _ _ _ hdefine hs⟩
  exact (hall hrun ⟨h, rfl, ha⟩).2.2

/-- At the end the kernels of a module with both other precisions are exact. -/
theorem finish_modes (h : finish a = .ok binary a') :
    a'.session.draft.module = { a.session.draft.module with
      executionModes := a.session.draft.module.executionModes ++
        if a.session.usesFp64 && a.session.usesFp16 then
          a.kernels.map fun k => contractionOff k.2 else [] } := by
  obtain ⟨-, rfl, -⟩ := finish_cases h
  rfl

/-- What is known of a module before it is finished: the declarations are in step, no mode is set,
and the kernels are those of the source. -/
theorem wholeModule_gated {m : Lir.Module} {target : Target} {settings : CodegenSettings}
    (h : wholeModule m (Assembler.new m.name target settings) = .ok binary a) :
    ∃ a₃, finish a₃ = .ok binary a ∧ a₃.session.Gated ∧ a₃.session.target = target ∧
      a₃.session.draft.module.executionModes = [] ∧
      a₃.kernels = (m.functions.filter Lir.Function.isKernel).map
        fun f => (f.name, a.idOf f.name) := by
  obtain ⟨_, a₁, hheader, h⟩ := bind_ok.1 h
  obtain ⟨_, a₂, hdeclares, h⟩ := bind_ok.1 h
  obtain ⟨_, a₃, hfunctions, hfinish⟩ := bind_ok.1 h
  obtain ⟨hstarted₂, hfound, -, -, hkernels, -⟩ := declares_found (.header hheader) hdeclares
  obtain ⟨hstarted₃, he⟩ := functions_emit hstarted₂ hfound hfunctions
  obtain ⟨-, hcallees, -⟩ := finish_ok hfinish hstarted₃.loads
  have hdeclare : Preserves (Along ((headed target).Changes vetted []))
      (m.functions.forM fun f => discard (declare f)) :=
    .forM fun f _ => .bind (declare_around f) fun _ => .pure _
  have hchanges := functions_change hstarted₂ hfound hfunctions
    (hdeclare hdeclares (header_around hheader .refl))
  refine ⟨a₃, hfinish, hchanges.gated (nil_subset _) (headed_gated target),
    hchanges.remembers.target, hchanges.modes, ?_⟩
  rw [he.kernels, hkernels, (header_empty hheader).2.2.1]
  refine map_congr_left fun f _ => ?_
  rw [Assembler.idOf, Assembler.idOf, hcallees, he.callees]

end Assemble

/-- **assemble_capabilities**: an assembled module declares the capabilities of every module and
exactly those that its types call for, each once; it has no precision that the target lacks; and its
kernels are exact when both precisions beyond 32 bits are declared, and only then. -/
theorem assemble_capabilities {m : Lir.Module} {target : Target} {settings : CodegenSettings}
    {binary : Binary} (h : assemble m target settings = .ok binary) :
    ∃ a, Assemble.wholeModule m (Assembler.new m.name target settings) = .ok binary a ∧
      let emitted := a.session.draft.finish
      binary.words = emitted.words ∧
      (∃ capabilities : List Capability, emitted.capabilities = capabilities.map requirement ∧
        capabilities.Nodup ∧
        ∀ c, c ∈ capabilities ↔ c ∈ basicCapabilities ∨ emitted.Demands c) ∧
      (target.fp64 = false →
        requirement float64 ∉ emitted.capabilities ∧ ¬ emitted.HasFloat 64) ∧
      (target.fp16 = false →
        requirement float16 ∉ emitted.capabilities ∧ ¬ emitted.HasFloat 16) ∧
      (emitted.entryPoints.filterMap Device.Program.entryOf).map Prod.fst
        = (m.functions.filter Lir.Function.isKernel).map Lir.Function.name ∧
      ∀ kernel ∈ emitted.entryPoints.filterMap Device.Program.entryOf,
        Assemble.contractionOff kernel.2 ∈ emitted.executionModes ↔
          emitted.HasFloat 64 ∧ emitted.HasFloat 16 := by
  obtain ⟨a, hrun⟩ := assemble_ok h
  have hcompleted := Assemble.wholeModule_completed hrun
  obtain ⟨a₃, hfinish, hgated, htarget, hmodes, hkernels⟩ := Assemble.wholeModule_gated hrun
  have hmodule := Assemble.finish_modes hfinish
  -- the end changes nothing but the modes
  have hcapabilities : a.session.draft.finish.capabilities
      = a₃.session.capabilities.map requirement := by
    show a.session.draft.module.capabilities = _
    rw [hmodule]
    exact hgated.placed
  have hdemands : ∀ c, a.session.draft.finish.Demands c ↔ a₃.session.draft.module.Demands c := by
    intro c
    show (∃ i ∈ a.session.draft.module.globals, _) ↔ _
    rw [hmodule]
    rfl
  have h64 : a.session.draft.finish.HasFloat 64 ↔ a₃.session.usesFp64 = true := by
    rw [← demands_float (c := float64) (by decide), hdemands, hgated.fp64]
  have h16 : a.session.draft.finish.HasFloat 16 ↔ a₃.session.usesFp16 = true := by
    rw [← demands_float (c := float16) (by decide), hdemands, hgated.fp16]
  have hinjective : ∀ c, requirement c ∈ a.session.draft.finish.capabilities ↔
      c ∈ basicCapabilities ∨ a₃.session.draft.module.Demands c := by
    intro c
    rw [hcapabilities, ← hgated.called, mem_map]
    constructor
    · rintro ⟨c', hc', heq⟩
      cases heq
      exact hc'
    · exact fun hc => ⟨c, hc, rfl⟩
  refine ⟨a, hrun, hcompleted.words, ⟨_, hcapabilities, hgated.once, fun c => ?_⟩, fun hlacks => ?_,
    fun hlacks => ?_, ?_, fun kernel hkernel => ?_⟩
  · rw [hdemands]
    exact hgated.called c
  · have hnot : ¬ a₃.session.draft.module.Demands float64 := by
      intro hc
      have := (hgated.supported _ hc).fp64 rfl
      rw [htarget, hlacks] at this
      cases this
    rw [hinjective, h64, hgated.fp64]
    exact ⟨fun h => h.elim (by decide) hnot, hnot⟩
  · have hnot : ¬ a₃.session.draft.module.Demands float16 := by
      intro hc
      have := (hgated.supported _ hc).fp16 rfl
      rw [htarget, hlacks] at this
      cases this
    rw [hinjective, h16, hgated.fp16]
    exact ⟨fun h => h.elim (by decide) hnot, hnot⟩
  · show (a.session.draft.module.entryPoints.filterMap Device.Program.entryOf).map Prod.fst = _
    rw [hcompleted.entries, map_map]
    rfl
  · have hmem : kernel ∈ a₃.kernels := by
      rw [hkernels, ← hcompleted.entries]
      exact hkernel
    show _ ∈ a.session.draft.module.executionModes ↔ _
    rw [hmodule, h64, h16, ← Bool.and_eq_true]
    rw [hmodes]
    split
    · next hboth => exact iff_of_true (mem_map.2 ⟨kernel, hmem, rfl⟩) hboth
    · next hboth => exact iff_of_false (not_mem_nil) hboth

/-- A kernel that reads numbers of both precisions beyond 32 bits. -/
def bothPrecisions : Lir.Module :=
  ⟨"precise", [⟨"read", .kernel, [⟨⟨0⟩, .ptr, none⟩], .void,
    [⟨⟨1⟩, .f64⟩, ⟨⟨2⟩, .vector .f16 8⟩], [],
    [⟨⟨0⟩, [.load ⟨1⟩ (.heap ⟨0⟩ none), .load ⟨2⟩ (.generic ⟨0⟩ none)], .ret none⟩]⟩]⟩

theorem assemble_capabilities_bothPrecisions :
    ∃ binary, assemble bothPrecisions {} {} = .ok binary ∧
      ∃ a, Assemble.wholeModule bothPrecisions (Assembler.new "precise" {} {}) = .ok binary a ∧
        let emitted := a.session.draft.finish
        binary.words = emitted.words ∧
        (∃ capabilities : List Capability, emitted.capabilities = capabilities.map requirement ∧
          capabilities.Nodup ∧
          ∀ c, c ∈ capabilities ↔ c ∈ basicCapabilities ∨ emitted.Demands c) ∧
        ∀ kernel ∈ emitted.entryPoints.filterMap Device.Program.entryOf,
          Assemble.contractionOff kernel.2 ∈ emitted.executionModes ↔
            emitted.HasFloat 64 ∧ emitted.HasFloat 16 := by
  obtain ⟨binary, hrun⟩ : ∃ binary, assemble bothPrecisions {} {} = .ok binary :=
    exists_of_isOk (by decide +kernel)
  obtain ⟨a, ha, hwords, hcapabilities, -, -, -, hkernels⟩ := assemble_capabilities hrun
  exact ⟨binary, hrun, a, ha, hwords, hcapabilities, hkernels⟩

end Codegen

end KernelForge
