import KernelForge.Proofs.Ledger.Functions

/-!
# Ids of an assembled module

At the end of a module every declared function is assembled. The ledger then says that results and
handed-out ids are the same, each once.

The names of functions and of the blocks of a function differ, and no function leads to a block that
it does not have: with two blocks of one name an id would be the result of two labels.
-/

namespace KernelForge.Codegen

open List hiding get modify
open Lir (BlockId)
open Spirv
open Assembler (new)
open Capability (addresses linkage)

-- the ledger of a module is opened before the first id is handed out
attribute [local instance] Opening.empty

variable {target : Target} {entry : BlockId} {binary : Binary} {name : String}

namespace Assemble

variable {done : List String} {held needs : List Id}

def headed (target : Target) : Session :=
  { target
    draft :=
      { module :=
          { version := ⟨1, 2⟩
            capabilities :=
              [⟨.capability, none, none, [.enumerant .capability addresses]⟩,
               ⟨.capability, none, none, [.enumerant .capability linkage]⟩,
               ⟨.capability, none, none, [.enumerant .capability Capability.kernel]⟩]
            imports := [⟨.extInstImport, none, some 1, [.text mathSetName]⟩]
            memoryModel := some ⟨.memoryModel, none, none,
              [.enumerant .addressingModel 2, .enumerant .memoryModel 2]⟩ }
        next := 2 }
    capabilities := [addresses, linkage, Capability.kernel]
    mathImport := some 1 }

theorem header_ok (target : Target) : Build.header { target } = .ok () (headed target) := rfl

/-- The header mentions no id and declares no type. -/
theorem headed_instructions (target : Target) :
    ∀ i ∈ (headed target).draft.instructions,
      i.mentions = [] ∧ i.resultType = none ∧ i.opcode ≠ .typeArray := by
  simp [headed, Draft.instructions, Module.instructions, Instruction.mentions]

theorem headed_plain (target : Target) (id : Id) :
    id ∉ arrayTypes (headed target).draft.instructions := by
  intro hid
  obtain ⟨i, hi, harray⟩ := mem_filterMap.1 hid
  obtain ⟨-, -, hop⟩ := headed_instructions target i hi
  rw [Instruction.arrayType?, if_neg fun h => hop h.1] at harray
  cases harray

theorem headed_tidy (target : Target) : (headed target).Tidy [] where
  since := Nat.le_succ 1
  sections := nil_sublist _
  accounts := by
    intro id
    show [1].count id + 0 = Opening.expected 2 id
    rw [count_singleton, Opening.expected_empty]
    split
    · next h =>
      rw [if_pos]
      have := beq_iff_eq.1 h
      omega
    · next h =>
      rw [if_neg]
      have := mt beq_iff_eq.2 h
      omega
  mentions id hid := by
    obtain ⟨i, hi, hmentions⟩ := mem_flatMap.1 hid
    rw [(headed_instructions target i hi).1] at hmentions
    cases hmentions
  typed i hi type htype := by
    rw [(headed_instructions target i hi).2.1] at htype
    cases htype
  apart _ _ _ id _ := headed_plain target id
  owing _ hid := nomatch hid
  types k id hk := nomatch hk
  pointers k id hk := nomatch hk
  arrays k id hk := nomatch hk
  functionTypes k id hk := nomatch hk
  constants k id hk := nomatch hk
  mathImport id hid := by
    cases hid
    exact ⟨⟨Nat.one_pos, Nat.one_lt_two⟩, headed_plain target 1⟩

variable {settings : CodegenSettings} {a a' : Assembler} {u : Unit}

/-- After the header, variables for the coordinates are declared. -/
theorem header_cases (h : header (new name target settings) = .ok u a) :
    ∃ builtins session, Build.declareBuiltins (headed target) = .ok builtins session ∧
      a = { new name target settings with session, builtins, stage := .headerEmitted } := by
  obtain ⟨_, -, h⟩ := look_ok expectStage_ok h
  obtain ⟨_, _, hrun, h⟩ := build_bind_ok h
  cases (header_ok target).symm.trans hrun
  obtain ⟨builtins, session, hrun, h⟩ := build_bind_ok h
  cases modify_ok.1 h
  exact ⟨builtins, session, hrun, rfl⟩

theorem header_tidy (h : header (new name target settings) = .ok u a) :
    a.Tidy [] [] ∧ a.callees = ∅ ∧ a.stage = .headerEmitted := by
  obtain ⟨builtins, session, hrun, rfl⟩ := header_cases h
  obtain ⟨hs, -, hknown⟩ :=
    Build.declareBuiltins_safe [] (headed_tidy target) (forall_mem_nil _) hrun
  refine ⟨?_, rfl, rfl⟩
  exact
    { started := nofun
      session := hs
      builtins := hknown
      callees := fun e he => nomatch he
      keyed := nodup_nil
      done := by simp
      kernels := fun k hk => nomatch hk
      arrays := fun _ _ hslot => nomatch hslot }

/-- Only functions of a list were declared. -/
def Declares (names : List String) (a : Assembler) : Prop :=
  ∀ e ∈ a.callees.entries, e.1 ∈ names

variable {names : List String} {f : Lir.Function} {signature : Signature}

theorem declare_declares (hf : f.name ∈ names) (ha : Declares names a)
    (h : declare f a = .ok signature a') : Declares names a' := by
  rcases declare_cases h with ⟨-, rfl⟩ | ⟨hc, -, rfl⟩
  · exact ha
  · intro e he
    rw [Table.entries_insert_of_none hc, mem_append, mem_singleton] at he
    rcases he with he | rfl
    · exact ha e he
    · exact hf

variable {u : PUnit} {fs : List Lir.Function}

theorem declares_tidy (hfs : ∀ f ∈ fs, f.name ∈ names) :
    Preserves (fun a => a.Tidy done held ∧ Declares names a)
      (fs.forM fun f => discard (declare f)) := by
  refine .forM fun f hf => .bind ?_ fun _ => .pure _
  rintro a signature a' h ⟨ha, hd⟩
  exact ⟨(declare_takes ha h).1, declare_declares (hfs f hf) hd h⟩

theorem functions_settle (hfs : ∀ f ∈ fs, f.name ∈ names) (ht : ∀ f ∈ fs, Targeted f)
    (hblocks : ∀ f ∈ fs, (f.blocks.map Lir.Block.id).Nodup)
    (hnodup : (fs.map Lir.Function.name).Nodup) (hnew : ∀ f ∈ fs, f.name ∉ done)
    (ha : a.Tidy done held) (hd : Declares names a) (h : fs.forM function a = .ok u a') :
    a'.Tidy ((fs.map Lir.Function.name).reverse ++ done) held ∧ Declares names a' := by
  induction fs generalizing a done with
  | nil =>
    obtain ⟨_, rfl⟩ := pure_ok.1 h
    exact ⟨ha, hd⟩
  | cons f fs ih =>
    obtain ⟨_, a₁, hfirst, hrest⟩ := bind_ok.1 h
    obtain ⟨hf, hfs⟩ := forall_mem_cons.1 hfs
    obtain ⟨htf, ht⟩ := forall_mem_cons.1 ht
    obtain ⟨hbf, hblocks⟩ := forall_mem_cons.1 hblocks
    obtain ⟨hnf, hnew⟩ := forall_mem_cons.1 hnew
    obtain ⟨hother, hnodup⟩ := nodup_cons.1 (map_cons ▸ hnodup)
    have ha₁ := function_settles htf hbf hnf ha hfirst
    have hd₁ : Declares names a₁ := by
      obtain ⟨_, _, _, -, hdeclare, hdefine⟩ := function_ok ha.started hfirst
      unfold Declares
      rw [define_callees hdefine]
      exact declare_declares hf hd hdeclare
    have hnew₁ : ∀ g ∈ fs, g.name ∉ f.name :: done := by
      intro g hg hin
      rcases mem_cons.1 hin with heq | hin
      · exact hother (heq ▸ mem_map_of_mem hg)
      · exact hnew g hg hin
    rw [map_cons, reverse_cons, append_assoc]
    exact ih hfs ht hblocks hnodup hnew₁ ha₁ hd₁ hrest

/-! ## Nothing is open at the end -/

/-- Between functions nothing is open. -/
def Shut (a : Assembler) : Prop :=
  a.stage = .functionClosed → a.session.draft.function = none ∧ a.session.draft.block = none

theorem closeFunction_shut {d d' : Draft} (h : d.closeFunction = .ok d') :
    d'.function = none ∧ d'.block = none := by
  unfold Draft.closeFunction at h
  split at h
  · cases h
  · cases h
  · next hb =>
    cases h
    exact ⟨rfl, hb⟩

theorem define_shut (h : define f entry signature a = .ok u a') :
    a'.stage = .functionClosed ∧ Shut a' := by
  obtain ⟨_, _, _, _, _, -, -, hd, rfl⟩ := define_cases h
  exact ⟨rfl, fun _ => closeFunction_shut hd⟩

theorem declare_shut : Preserves Shut (declare f) := by
  intro a signature a' h ha
  rcases declare_cases h with ⟨-, rfl⟩ | ⟨-, -, rfl⟩
  · exact ha
  · exact ha

theorem declares_shut : Preserves Shut (fs.forM fun f => discard (declare f)) :=
  .forM fun _ _ => declare_shut.bind fun _ => .pure _

/-- Functions are assembled one after another, each from its header on. -/
theorem functions_shut : Preserves (fun a => a.stage ≠ .empty ∧ Shut a) (fs.forM function) := by
  refine .forM fun f _ => ?_
  rintro a u a' h ⟨hs, -⟩
  obtain ⟨_, _, _, -, -, hdefine⟩ := function_ok hs h
  obtain ⟨hstage, hshut⟩ := define_shut hdefine
  exact ⟨by simp [hstage], hshut⟩

theorem finish_shut (ha : Shut a) (h : finish a = .ok binary a') :
    a'.session.draft.function = none ∧ a'.session.draft.block = none := by
  obtain ⟨hclosed, rfl, -⟩ := finish_cases h
  exact ha hclosed

/-- An assembled module owes nothing, and nothing in it is open. -/
theorem wholeModule_tidy {m : Lir.Module} (hnames : (m.functions.map Lir.Function.name).Nodup)
    (hblocks : ∀ f ∈ m.functions, (f.blocks.map Lir.Block.id).Nodup)
    (ht : ∀ f ∈ m.functions, Targeted f)
    (h : wholeModule m (new m.name target settings) = .ok binary a) :
    a.session.Tidy [] ∧ binary.words = a.session.words ∧
      a.session.draft.function = none ∧ a.session.draft.block = none := by
  have hall : ∀ f ∈ m.functions, f.name ∈ m.functions.map Lir.Function.name :=
    fun f hf => mem_map_of_mem hf
  obtain ⟨_, a₁, hheader, h⟩ := bind_ok.1 h
  obtain ⟨ha₁, hempty, hstage⟩ := header_tidy hheader
  have hd₁ : Declares (m.functions.map Lir.Function.name) a₁ := by
    rw [Declares, hempty]
    exact fun e he => nomatch he
  have hs₁ : Shut a₁ := fun h => nomatch hstage.symm.trans h
  obtain ⟨_, a₂, hdeclares, h⟩ := bind_ok.1 h
  obtain ⟨ha₂, hd₂⟩ := declares_tidy hall hdeclares ⟨ha₁, hd₁⟩
  obtain ⟨_, a₃, hfunctions, hfinish⟩ := bind_ok.1 h
  obtain ⟨ha₃, hd₃⟩ := functions_settle hall ht hblocks hnames (by simp) ha₂ hd₂ hfunctions
  obtain ⟨ha, hc, hwords⟩ := finish_tidy ha₃ hfinish
  have hs₂ := declares_shut hdeclares hs₁
  have hshut := finish_shut (functions_shut hfunctions ⟨ha₂.started, hs₂⟩).2 hfinish
  refine ⟨?_, hwords, hshut⟩
  -- every declared function is assembled
  have hsettled : a.callees.except ((m.functions.map Lir.Function.name).reverse ++ []) = [] := by
    rw [hc]
    refine Table.except_eq_nil fun e he => ?_
    simpa using hd₃ e he
  have hsession := ha.session
  rw [hsettled] at hsession
  exact hsession

end Assemble

/-! ## Ids of the emitted module -/

variable {settings : CodegenSettings} {m : Lir.Module}

theorem assemble_ok (h : assemble m target settings = .ok binary) :
    ∃ a, Assemble.wholeModule m (new m.name target settings) = .ok binary a := by
  unfold assemble at h
  cases hnames : m.functions.forM fun f => checkName f.name with
  | error =>
    rw [hnames] at h
    cases h
  | ok =>
    rw [hnames] at h
    cases hrun : Assemble.wholeModule m (.new m.name target settings) with
    | error =>
      simp only [hrun] at h
      cases h
    | ok binary' a =>
      simp only [hrun, bind, Except.bind] at h
      cases h
      exact ⟨a, rfl⟩

/-- A ledger without debts lists every id once. -/
theorem results_of_settled {s : Session} (hs : s.Tidy []) (hf : s.draft.function = none)
    (hb : s.draft.block = none) :
    (results s.draft.finish.instructions).Nodup ∧
      (∀ id, id ∈ results s.draft.finish.instructions ↔ 1 ≤ id ∧ id < s.draft.finish.bound) ∧
      ∀ id ∈ mentioned s.draft.finish.instructions, id ∈ results s.draft.finish.instructions := by
  have hall : s.draft.instructions = s.draft.finish.instructions := by
    simp [Draft.instructions, hf, hb, Draft.finish, Module.instructions]
  have hcount : ∀ id : Nat, (results s.draft.finish.instructions).count id
      = if 0 < id ∧ id < s.draft.next then 1 else 0 := by
    intro id
    have h := hs.accounts id
    rwa [hall, count_nil, Opening.expected_empty] at h
  have hmem : ∀ id : Nat, id ∈ results s.draft.finish.instructions ↔
      1 ≤ id ∧ id < s.draft.next := by
    intro id
    rw [← count_pos_iff, hcount id]
    split
    · next h => exact ⟨fun _ => h, fun _ => Nat.one_pos⟩
    · next h => exact ⟨fun h' => absurd h' (Nat.lt_irrefl 0), fun h' => absurd h' h⟩
  refine ⟨?_, hmem, fun id hid => (hmem id).2 (hs.mentions id (hall ▸ hid))⟩
  rw [nodup_iff_count]
  intro id
  rw [hcount id]
  split
  · exact Nat.le_refl 1
  · exact Nat.zero_le 1

/-- **assemble_ids**: the results of an assembled module are the ids from one up to its bound, each
once, and everything the module mentions is one of them. -/
theorem assemble_ids {target : Target}
    {binary : Binary} (hnames : (m.functions.map Lir.Function.name).Nodup)
    (hblocks : ∀ f ∈ m.functions, (f.blocks.map Lir.Block.id).Nodup)
    (htargets : ∀ f ∈ m.functions, Targeted f) (h : assemble m target settings = .ok binary) :
    ∃ a, Assemble.wholeModule m (Assembler.new m.name target settings) = .ok binary a ∧
      let emitted := a.session.draft.finish
      binary.words = emitted.words ∧
      binary.words[3]? = some (UInt32.ofNat emitted.bound) ∧
      (results emitted.instructions).Nodup ∧
      (∀ id, id ∈ results emitted.instructions ↔ 1 ≤ id ∧ id < emitted.bound) ∧
      ∀ id ∈ mentioned emitted.instructions, id ∈ results emitted.instructions := by
  obtain ⟨a, hrun⟩ := assemble_ok h
  obtain ⟨hs, hwords, hf, hb⟩ := Assemble.wholeModule_tidy hnames hblocks htargets hrun
  refine ⟨a, hrun, hwords, ?_, results_of_settled hs hf hb⟩
  rw [hwords]
  rfl

/-- A kernel that counts its argument down; the merge names a value that is defined after it. -/
def countdown : Lir.Module :=
  ⟨"countdown", [⟨"count", .kernel, [⟨⟨0⟩, .i32, none⟩], .void, [⟨⟨1⟩, .i32⟩, ⟨⟨2⟩, .i32⟩], [],
    [⟨⟨0⟩, [], .jump ⟨1⟩⟩,
     ⟨⟨1⟩, [.phi ⟨1⟩ [(⟨0⟩, .var ⟨0⟩), (⟨1⟩, .var ⟨2⟩)],
        .binary ⟨2⟩ .sub (.var ⟨1⟩) (.const ⟨"1", .i32⟩)], .branch (.var ⟨2⟩) ⟨1⟩ ⟨2⟩ none⟩,
     ⟨⟨2⟩, [], .ret none⟩]⟩]⟩

theorem assemble_ids_countdown :
    ∃ binary, assemble countdown {} {} = .ok binary ∧
      ∃ a, Assemble.wholeModule countdown (Assembler.new "countdown" {} {}) = .ok binary a ∧
        let emitted := a.session.draft.finish
        binary.words = emitted.words ∧
        binary.words[3]? = some (UInt32.ofNat emitted.bound) ∧
        (results emitted.instructions).Nodup ∧
        (∀ id, id ∈ results emitted.instructions ↔ 1 ≤ id ∧ id < emitted.bound) ∧
        ∀ id ∈ mentioned emitted.instructions, id ∈ results emitted.instructions := by
  obtain ⟨binary, hrun⟩ : ∃ binary, assemble countdown {} {} = .ok binary :=
    exists_of_isOk (by decide +kernel)
  exact ⟨binary, hrun, assemble_ids (by decide) (by decide) (by decide) hrun⟩

end KernelForge.Codegen
