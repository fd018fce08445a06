import KernelForge.Proofs.Execution.Reach
import KernelForge.Proofs.Loading.Install

/-!
# Merges keep their incoming values

Entering a block from another one gives each merge the value that its operand has at the end of that
block (`merges_keep_values`). A merge that names itself keeps its own value if all its other values
are one. If they are not, it may take another value than the one it had (`rejoining_changes`).
-/

namespace KernelForge.Codegen

open List
open Spirv
open Device (Env State Program)

variable {n : Names} {id : Id} {l : FunctionLayout} {e : Function} {env : Env}
  {p b : Lir.Block} {s s' : State}

/-- A step of a work-item that goes on from the end of a block to a block, in a call of
the function with an id. -/
structure Enters (env : Env) (n : Names) (id : Id) (p b : Lir.Block) (s s' : State) : Prop where
  reaches : env.Reaches s
  function : s.frame.function = id
  source : p ∈ n.scope.function.blocks
  target : b ∈ n.scope.function.blocks
  leaves : n.symbols.labels.get? p.id = some s.frame.label
  arrives : n.symbols.labels.get? b.id = some s'.frame.label
  step : ∃ i rest, s.frame.rest = i :: rest ∧ env.step s i rest = .ok (.inl s') ∧
    env.execute s.frame.locals s.store i = .ok (.jump s'.frame.label)

/-- A merge entered from a block has the value of its operand there. A merge that
takes its own value keeps it if all other values that reach it are one. -/
def KeepsMerges (env : Env) (n : Names) (id : Id) : Prop :=
  ∀ p b s s', Enters env n id p b s s' → ∀ m ∈ leadingMerges b.ops, ∃ o own operand v,
    (p.id, o) ∈ m.2 ∧ n.symbols.resolve? m.1 = some own ∧ n.incomingId m.1 o = some operand ∧
    env.value s'.frame.locals own = .ok v ∧
    (operand ≠ own → env.value s.frame.locals operand = .ok v) ∧
    (operand = own → n.scope.function.StrictSSA → ∀ other, Loops n b m own other →
      env.value s.frame.locals own = .ok v)

namespace Owned

variable (h : Owned n id l e)

include h

/-- A step from block to block starts at the end of a block of a path. -/
theorem enters_inBlock (hp : env.program.functions[id]? = some (.of e.asRead))
    (he : Enters env n id p b s s') :
    ∃ passed lp lb d, InBlock env n l passed p lp s.frame ∧
      (b, lb) ∈ n.scope.function.blocks.zip l.blocks ∧ b.id ∈ p.terminator.successors ∧
      d.body = lb.merges ++ lb.tail.map Instruction.asRead ∧
      env.enter s.frame (some lp.label) d = .ok s'.frame := by
  obtain ⟨i, rest, hi, hstep, hx⟩ := he.step
  obtain ⟨hcode, c, hat, -⟩ := (h.reaches_placed hp he.reaches).1 he.function
  obtain ⟨lp, hlp⟩ := h.blocksCode.layout he.source
  have hlabel : s.frame.label = lp.label :=
    Option.some.inj (he.leaves.symm.trans (h.blocksCode.of_mem hlp).label)
  obtain ⟨d, hd, henter⟩ := Env.step_jump hx hstep
  rw [hcode] at hd
  obtain ⟨hblock, hdlabel⟩ := Env.findBlock_ok hd
  cases hat with
  | prologue hl => exact absurd (he.leaves.trans (congrArg some hl)) (h.first_no_label p.id)
  | leaving hl =>
    have hmem : s.frame.label ∈ n.scope.returnBlock.toList := by simp [hl]
    obtain ⟨-, -, hapart⟩ := nodup_append.1 (nodup_cons.1 h.labels_nodup).2
    exact absurd hlabel.symm (hapart lp.label (mem_map.2 ⟨lp, (of_mem_zip hlp).2, rfl⟩) _ hmem)
  | @block passed p' lp' _ hin =>
    obtain ⟨rfl, rfl⟩ := h.layout_unique hlp hin.layout (hlabel.symm.trans hin.label)
    have hpcode := h.blocksCode.of_mem hlp
    have hmem := (At.block hin).mem hi
    rw [BlockLayout.tail_eq] at hmem
    obtain rfl := last_of_jump (fun i => hpcode.middle_plain) hpcode.ending.asRead hmem hx
    obtain ⟨b', lb, hlb, hb', hl, hbody⟩ :=
      h.device_label hblock (he.arrives.trans (congrArg some hdlabel.symm))
    obtain ⟨lb', hlb'⟩ := h.blocksCode.layout he.target
    have hsame : lb.label = lb'.label := by
      rw [← hl, hdlabel]
      exact Option.some.inj (he.arrives.symm.trans (h.blocksCode.of_mem hlb').label)
    obtain ⟨rfl, rfl⟩ := h.layout_unique hlb hlb' hsame
    refine ⟨passed, lp, lb, d, hin, hlb, ?_, hbody, hlabel ▸ henter⟩
    rcases hpcode.ending.leads_on hx with ⟨t, ht, htl⟩ | hreturn
    · rw [← h.label_eq hlb (htl.trans (congrArg some (hdlabel.symm.trans hl)))]
      exact ht
    · have hmem : s'.frame.label ∈ n.scope.returnBlock.toList := by simp [hreturn]
      obtain ⟨-, -, hapart⟩ := nodup_append.1 (nodup_cons.1 h.labels_nodup).2
      exact absurd (hl.symm.trans hdlabel) (hapart lb.label
        (mem_map.2 ⟨lb, (of_mem_zip hlb).2, rfl⟩) _ hmem)

/-- An emitted function keeps the values of merges. -/
theorem keepsMerges (hp : env.program.functions[id]? = some (.of e.asRead)) :
    KeepsMerges env n id := by
  intro p b s s' he m hm
  obtain ⟨passed, lp, lb, d, hin, hlb, hsucc, hbody, henter⟩ := h.enters_inBlock hp he
  obtain ⟨o, ho⟩ := h.merge_covers he.target hm he.source hsucc
  obtain ⟨own, operand, received, v, hown, hoperand, hreceives, hv, hv'⟩ :=
    h.received hin.layout hlb hbody henter hm ho
  refine ⟨o, own, operand, v, ho, hown, hoperand, hv', fun hne => ?_, fun heq hs other hloops => ?_⟩
  · rcases hreceives with ⟨-, rfl⟩ | ⟨heq, -⟩
    · exact hv
    · exact absurd heq hne
  · subst heq
    obtain ⟨t, t', ht, hx⟩ := h.unchanged_since hs hin.start hloops hin.walk hsucc ho hoperand
    rw [hin.settled hs b m operand other hloops t t' ht hx]
    rw [hloops.received ho hoperand hreceives] at hv
    exact hv

end Owned

/-- **merges_keep_values**: in every run of an assembled module, entering a block gives its merges
the values of their operands; a merge that takes its own value keeps it if all other values that
reach it are one. -/
theorem merges_keep_values {m : Lir.Module} {target : Target} {settings : CodegenSettings}
    {binary : Binary} {p : Program} (h : assemble m target settings = .ok binary)
    (hread : readsBack m target settings = true) (hp : Program.ofWords binary.words = .ok p)
    {k : Nat} {f : Lir.Function} (hf : m.functions[k]? = some f)
    (hlast : ∀ (j : Nat) g, k < j → m.functions[j]? = some g → g.name ≠ f.name) (hd : f.Distinct) :
    ∃ a e n l, Assemble.wholeModule m (Assembler.new m.name target settings) = .ok binary a ∧
      a.session.draft.finish.functions[k]? = some e ∧ n.scope.function = f ∧
      FunctionCode n (a.idOf f.name) l e ∧
      ∀ item, KeepsMerges ⟨p, item⟩ n (a.idOf f.name) := by
  obtain ⟨a, p', hrun, hdone, hloaded, hp'⟩ := assemble_completed h hread
  cases hp.symm.trans hp'
  obtain ⟨e, he, -⟩ := hdone.function_at hf
  obtain ⟨n, l, hn, -, -, howned⟩ := hdone.code k f e hf he hd
  exact ⟨a, e, n, l, hrun, he, hn, howned.toFunctionCode,
    fun item => howned.keepsMerges (hloaded.functions k f e hf hlast he)⟩

/-- A kernel that goes round until it has marked its buffer, and keeps a number in a merge. -/
def spinning : Lir.Function :=
  ⟨"spin", .kernel, [⟨⟨0⟩, .ptr, none⟩], .void, [⟨⟨1⟩, .i32⟩, ⟨⟨2⟩, .i32⟩], [],
    [⟨⟨0⟩, [], .jump ⟨1⟩⟩,
     ⟨⟨1⟩, [.phi ⟨1⟩ [(⟨0⟩, .const ⟨"7", .i32⟩), (⟨1⟩, .var ⟨1⟩)],
        .load ⟨2⟩ (.heap ⟨0⟩ none), .store (.heap ⟨0⟩ none) (.const ⟨"1", .i32⟩)],
        .branch (.var ⟨2⟩) ⟨2⟩ ⟨1⟩ none⟩,
     ⟨⟨2⟩, [.store (.heap ⟨0⟩ none) (.var ⟨1⟩)], .ret none⟩]⟩

theorem merges_keep_values_spinning :
    spinning.StrictSSA ∧
    (Host.trial ⟨"m", [spinning]⟩ {} "spin" {} [0, 0, 0, 0] fun a => [.buffer a]).toOption =
      some [7, 0, 0, 0] ∧
    ∃ binary p, assemble ⟨"m", [spinning]⟩ {} {} = .ok binary ∧
      Program.ofWords binary.words = .ok p ∧
      ∃ n id l e, n.scope.function = spinning ∧ FunctionCode n id l e ∧
        ∀ item, KeepsMerges ⟨p, item⟩ n id := by
  have hssa : spinning.StrictSSA := Lir.Function.strictSSA_of_isStrict
    (fun b => if b = ⟨2⟩ then [⟨1⟩] else []) (by decide +kernel)
  have hread : readsBack ⟨"m", [spinning]⟩ {} {} = true := by decide +kernel
  have hlast : ∀ (j : Nat) g, 0 < j → [spinning][j]? = some g → g.name ≠ spinning.name := by
    intro j g hj hg
    cases j with
    | zero => cases hj
    | succ => cases hg
  refine ⟨hssa, by decide +kernel, ?_⟩
  obtain ⟨binary, hrun⟩ : ∃ binary, assemble ⟨"m", [spinning]⟩ {} {} = .ok binary :=
    exists_of_isOk (by decide +kernel)
  obtain ⟨-, p, -, -, -, hp⟩ := assemble_completed hrun hread
  obtain ⟨a, e, n, l, -, -, hn, hcode, hkeeps⟩ :=
    merges_keep_values hrun hread hp (k := 0) rfl hlast hssa.distinct
  exact ⟨binary, p, hrun, hp, n, _, l, e, hn, hcode, hkeeps⟩

/-- A kernel whose merge is reached with two values, and takes its own one until the buffer is
marked. -/
def rejoining : Lir.Function :=
  ⟨"k", .kernel, [⟨⟨0⟩, .ptr, none⟩, ⟨⟨1⟩, .i32, none⟩], .void, [⟨⟨2⟩, .i32⟩, ⟨⟨3⟩, .i32⟩], [],
    [⟨⟨0⟩, [], .branch (.var ⟨1⟩) ⟨1⟩ ⟨2⟩ none⟩, ⟨⟨1⟩, [], .jump ⟨3⟩⟩, ⟨⟨2⟩, [], .jump ⟨3⟩⟩,
     ⟨⟨3⟩, [.phi ⟨2⟩ [(⟨1⟩, .const ⟨"1", .i32⟩), (⟨2⟩, .const ⟨"2", .i32⟩), (⟨4⟩, .var ⟨2⟩)],
        .load ⟨3⟩ (.heap ⟨0⟩ (some (.const ⟨"4", .i64⟩)))], .branch (.var ⟨3⟩) ⟨5⟩ ⟨4⟩ none⟩,
     ⟨⟨4⟩, [.store (.heap ⟨0⟩ (some (.const ⟨"4", .i64⟩))) (.const ⟨"1", .i32⟩)], .jump ⟨3⟩⟩,
     ⟨⟨5⟩, [.store (.heap ⟨0⟩ none) (.var ⟨2⟩)], .ret none⟩]⟩

/-- Entered from the second block the merge has the value 2. Once round, with its own value, it has
the value 1. -/
theorem rejoining_changes :
    rejoining.StrictSSA ∧ (Host.trial ⟨"m", [rejoining]⟩ {} "k" {} [0, 0, 0, 0, 1, 0, 0, 0]
      fun a => [.buffer a, .int 0]).toOption = some [2, 0, 0, 0, 1, 0, 0, 0] ∧
    (Host.trial ⟨"m", [rejoining]⟩ {} "k" {} [0, 0, 0, 0, 0, 0, 0, 0]
      fun a => [.buffer a, .int 0]).toOption = some [1, 0, 0, 0, 1, 0, 0, 0] := by
  refine ⟨Lir.Function.strictSSA_of_isStrict
    (fun b => if b = ⟨4⟩ ∨ b = ⟨5⟩ then [⟨2⟩] else []) ?_, ?_, ?_⟩ <;> decide +kernel

end KernelForge.Codegen
