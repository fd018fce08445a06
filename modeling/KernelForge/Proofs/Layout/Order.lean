import KernelForge.Proofs.Loading.Module

/-!
# The order of instructions in a block

In every function of an assembled module variables are declared ahead of all else in the first
block, merges stand ahead of all else in their block, a block ends with its only terminator, and a
loop is announced right ahead of the branch that ends its block (`assemble_ordered`).

For each phase of a body `Phase.Reached` says what the finished blocks and the instructions of the
open block look like; every step of a body leads from one phase to the next.
-/

namespace KernelForge.Codegen

open List hiding get modify
open Lir (BlockId)
open Spirv

/-- Nothing but instructions that stand ahead in a block. -/
def Heading (ahead : Opcode) (c : List Instruction) : Prop := ∀ i ∈ c, i.opcode = ahead

/-- Ordinary instructions follow: no variables, merges, loops or terminators. -/
def Unended (ahead : Opcode) (c : List Instruction) : Prop :=
  ∃ front inner, c = front ++ inner ∧ Heading ahead front ∧ ∀ i ∈ inner, isOrdinary i.opcode = true

/-- A terminator is the end, and only a conditional branch ends a loop that was announced. -/
inductive Ordered (ahead : Opcode) : List Instruction → Prop where
  | plain {c : List Instruction} {last : Instruction} (hc : Unended ahead c)
    (hlast : last.opcode.isTerminator = true) : Ordered ahead (c ++ [last])
  | loop {c : List Instruction} {i last : Instruction} (hc : Unended ahead c)
    (hi : i.opcode = .loopMerge) (hlast : last.opcode = .branchConditional) :
    Ordered ahead (c ++ [i] ++ [last])

/-- Variables stand ahead in the first block, and merges in the others. -/
def OrderedBlocks (blocks : List Block) : Prop :=
  ∃ first rest, blocks = first :: rest ∧ Ordered .variableDecl first.body ∧
    ∀ e ∈ rest, Ordered .phi e.body

variable {blocks : List Block}

theorem OrderedBlocks.append {e : Block} (h : OrderedBlocks blocks)
    (he : Ordered .phi e.body) : OrderedBlocks (blocks ++ [e]) := by
  obtain ⟨first, rest, rfl, hfirst, hrest⟩ := h
  exact ⟨first, rest ++ [e], rfl, hfirst, forall_mem_append.2 ⟨hrest, forall_mem_singleton.2 he⟩⟩

variable {ahead : Opcode} {c c' : List Instruction} {s s' : Session}

theorem Heading.unended (h : Heading ahead c) : Unended ahead c :=
  ⟨c, [], (append_nil c).symm, h, forall_mem_nil _⟩

theorem Unended.append (h : Unended ahead c) (hc : ∀ i ∈ c', isOrdinary i.opcode = true) :
    Unended ahead (c ++ c') := by
  obtain ⟨front, inner, rfl, hfront, hinner⟩ := h
  exact ⟨front, inner ++ c', append_assoc _ _ _, hfront, forall_mem_append.2 ⟨hinner, hc⟩⟩

/-! ## Phases -/

namespace Phase

/-- The finished blocks, and the instructions of the open block. -/
def Reached : Phase → List Block → List Instruction → Prop
  | storage, blocks, c => blocks = [] ∧ Heading .variableDecl c
  | merging, blocks, c => OrderedBlocks blocks ∧ Heading .phi c
  | inner true, blocks, c => blocks = [] ∧ Unended .variableDecl c
  | inner false, blocks, c => OrderedBlocks blocks ∧ Unended .phi c
  | announced, blocks, c => OrderedBlocks blocks ∧
    ∀ last : Instruction, last.opcode = .branchConditional → Ordered .phi (c ++ [last])
  | shut, _, _ => False

/-- Instructions that a phase allows keep it. -/
theorem Reached.append {phase : Phase} (h : phase.Reached blocks c)
    (hc : ∀ i ∈ c', phase.Allows i.opcode) : phase.Reached blocks (c ++ c') := by
  cases phase with
  | storage | merging => exact ⟨h.1, forall_mem_append.2 ⟨h.2, hc⟩⟩
  | inner first =>
    cases first with
    | true | false => exact ⟨h.1, h.2.append hc⟩
  | announced =>
    cases c' with
    | nil => rwa [append_nil]
    | cons i => exact (hc i mem_cons_self).elim
  | shut => exact h.elim

/-- The end of a block adds it to the function. -/
theorem Reached.ends {first : Bool} (h : (inner first).Reached blocks c)
    {last : Instruction} (hlast : last.opcode.isTerminator = true) (label : Instruction) :
    OrderedBlocks (blocks ++ [⟨label, c ++ [last]⟩]) := by
  cases first with
  | true =>
    obtain ⟨rfl, hc⟩ := h
    exact ⟨_, [], rfl, .plain hc hlast, forall_mem_nil _⟩
  | false => exact h.1.append (.plain h.2 hlast)

end Phase

namespace Session

/-- A block is open: what holds of the blocks before it and of its instructions. -/
def Open (S : List Block → List Instruction → Prop) (s : Session) : Prop :=
  ∃ f e, s.draft.function = some f ∧ s.draft.block = some e ∧ S f.blocks e.body

/-- In every phase but the last a block is open. -/
def Reaches : Phase → Session → Prop
  | .shut, s => ∃ f, s.draft.function = some f ∧ s.draft.block = none ∧ OrderedBlocks f.blocks
  | phase, s => s.Open phase.Reached

namespace Open

variable {S S' : List Block → List Instruction → Prop} (h : s.Open S)

include h

theorem imp (hS : ∀ {blocks c}, S blocks c → S' blocks c) : s.Open S' := by
  obtain ⟨f, e, hf, he, hs⟩ := h
  exact ⟨f, e, hf, he, hS hs⟩

theorem adds (hadds : s.Adds c s') (hS : ∀ {blocks c₀}, S blocks c₀ → S' blocks (c₀ ++ c)) :
    s'.Open S' := by
  obtain ⟨f, e, hf, he, hs⟩ := h
  refine ⟨f, ⟨e.label, e.body ++ c⟩, hadds.draft.function.trans hf, ?_, hS hs⟩
  rw [hadds.draft.block, he]
  rfl

/-- The end of the open block adds it to the function. -/
theorem terminate {op : Opcode} {operands : List Operand} {u : Unit}
    (hop : op.isTerminator = true) (hrun : Build.place ⟨op, none, none, operands⟩ s = .ok u s')
    (hS : ∀ {blocks c} label, S blocks c →
      OrderedBlocks (blocks ++ [⟨label, c ++ [⟨op, none, none, operands⟩]⟩])) :
    s'.Reaches .shut := by
  obtain ⟨f, e, hf, he, hs⟩ := h
  obtain ⟨f', e', hf', he', rfl⟩ := Build.terminate_ok hop hrun
  cases hf.symm.trans hf'
  cases he.symm.trans he'
  exact ⟨_, rfl, rfl, hS _ hs⟩

end Open

theorem reaches_phases : Phases Reaches where
  frame phase := .ofAdds fun hadds hc hs => by
    cases phase with
    | shut =>
      obtain ⟨f, hf, hblock, hblocks⟩ := hs
      refine ⟨f, hadds.draft.function.trans hf, ?_, hblocks⟩
      rw [hadds.draft.block, hblock]
      rfl
    | _ => exact Open.adds hs hadds fun h => h.append hc
  stored hs := hs.imp fun h => ⟨h.1, h.2.unended⟩
  merged hs := hs.imp fun h => ⟨h.1, h.2.unended⟩
  plain hs := hs.imp fun h => ⟨h.1, fun last hlast => .plain h.2 (by rw [hlast]; rfl)⟩
  announce _ _ _ _ hrun hs :=
    hs.adds (Build.append_ok hrun).adds fun h => ⟨h.1, fun _ hlast => .loop h.2 rfl hlast⟩
  openBlock _ _ _ _ hrun hs := by
    obtain ⟨f, hf, -, hblocks⟩ := hs
    cases Build.openBlock_ok hrun
    exact ⟨f, ⟨_, []⟩, hf, rfl, hblocks, forall_mem_nil _⟩
  terminate _ hop _ _ _ _ hrun hs := hs.terminate hop hrun fun label h => h.ends hop label
  branch _ _ _ _ hrun hs := hs.terminate rfl hrun fun _ h => h.1.append (h.2 _ rfl)

end Session

/-! ## Functions -/

theorem Assemble.define_ordered {f : Lir.Function} {entry : BlockId} {signature : Signature}
    {a a' : Assembler} {u : Unit} (h : define f entry signature a = .ok u a') :
    ∃ e, a'.session.draft.module.functions = a.session.draft.module.functions ++ [e] ∧
      OrderedBlocks e.blocks := by
  obtain ⟨params, target, a₁, b, d, hprepare, hemit, hd, rfl⟩ := define_cases h
  obtain ⟨_, _, _, first, -, -, -, -, hf₁, hb₁, hp₁, -⟩ := prepare_ok hprepare
  have hc := (Emit.body_stays (I := a₁.session.Continues) _ _ _).leads hemit (.withDraft rfl rfl)
  obtain ⟨e, he, hblock, hordered⟩ := (Emit.body_leads Session.reaches_phases _ _ _).leads hemit
    ⟨_, _, hf₁, hb₁, rfl, forall_mem_nil _⟩
  simp only [Draft.closeFunction, he, hblock] at hd
  cases hd
  refine ⟨e, ?_, hordered⟩
  rw [← hp₁.functions, ← hc.functions]
  rfl

theorem Assembler.Started.ordered {a : Assembler} (h : a.Started) :
    ∀ e ∈ a.session.draft.module.functions, OrderedBlocks e.blocks := by
  induction h with
  | header hrun =>
    rw [(Assemble.header_empty hrun).1]
    exact forall_mem_nil _
  | declare _ hrun ih =>
    rcases Assemble.declare_cases hrun with ⟨-, rfl⟩ | ⟨-, -, rfl⟩
    · exact ih
    · exact ih
  | define _ _ _ hrun ih =>
    obtain ⟨e, he, hordered⟩ := Assemble.define_ordered hrun
    rw [he]
    exact forall_mem_append.2 ⟨ih, forall_mem_singleton.2 hordered⟩

/-- **assemble_ordered**: the functions of an assembled module keep the order of instructions,
whatever the module and the settings are. -/
theorem assemble_ordered {m : Lir.Module} {target : Target} {settings : CodegenSettings}
    {binary : Binary} (h : assemble m target settings = .ok binary) :
    ∃ a, Assemble.wholeModule m (Assembler.new m.name target settings) = .ok binary a ∧
      binary.words = a.session.draft.finish.words ∧
      ∀ e ∈ a.session.draft.finish.functions, OrderedBlocks e.blocks := by
  obtain ⟨a, hrun⟩ := assemble_ok h
  have hdone := Assemble.wholeModule_completed hrun
  obtain ⟨a₀, hstarted, hfinish⟩ := hdone.started
  refine ⟨a, hrun, hdone.words, ?_⟩
  obtain ⟨-, rfl, -⟩ := Assemble.finish_cases hfinish
  exact hstarted.ordered

theorem assemble_ordered_countdown :
    ∃ binary, assemble countdown {} { optimizeLoadStore := false } = .ok binary ∧
      ∃ a, Assemble.wholeModule countdown
          (Assembler.new "countdown" {} { optimizeLoadStore := false }) = .ok binary a ∧
        binary.words = a.session.draft.finish.words ∧
        ∀ e ∈ a.session.draft.finish.functions, OrderedBlocks e.blocks := by
  obtain ⟨binary, hrun⟩ : ∃ binary,
      assemble countdown {} { optimizeLoadStore := false } = .ok binary :=
    exists_of_isOk (by decide +kernel)
  exact ⟨binary, hrun, assemble_ordered hrun⟩

end KernelForge.Codegen
