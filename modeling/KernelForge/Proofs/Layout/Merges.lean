import KernelForge.Proofs.Layout.Owners
import Mathlib.Data.List.Perm.Subperm

/-!
# Merges that name themselves

A merge whose own id stands among its values takes the first other value there instead. Where all
other values are one id, the variable that makes that id is defined on every path before the merge
is first reached (`Owned.first_source`), and never in the block of the merge.
-/

namespace KernelForge.Codegen

open List
open Lir (ValueId BlockId)
open Lir.Function (trace)
open Spirv

/-! ## Sources of a merge -/

/-- A merge that passes the check names every block that leads to it, once. -/
theorem checkMerge_perm {merge : BlockId} {preds sources : List BlockId}
    (h : checkMerge merge preds sources = .ok ()) : sources.Nodup ∧ sources.Perm preds := by
  have hsub := Emit.checkMerge_ok h
  unfold checkMerge at h
  cases hc : checkSources merge preds [] sources with
  | error =>
    rw [hc] at h
    cases h
  | ok =>
    have hnodup := (Emit.checkSources_ok hc).1
    have hlen : sources.length = preds.length := by
      rw [hc] at h
      by_cases hne : sources.length ≠ preds.length
      · rw [if_pos hne] at h
        cases h
      · exact Decidable.of_not_not hne
    have hsubperm : sources.Subperm preds := hnodup.subperm hsub
    exact ⟨hnodup, hsubperm.perm_of_length_le (Nat.le_of_eq hlen.symm)⟩

/-- The id of a value that reaches a merge. -/
def Names.incomingId (n : Names) (dst : ValueId) (o : Lir.Operand) : Option Id := do
  n.mergeId (← n.scope.function.kindOf? dst) o

/-- A merge all of whose values are its own id or one other. -/
structure Loops (n : Names) (b : Lir.Block) (m : Merge) (own other : Id) : Prop where
  block : b ∈ n.scope.function.blocks
  merge : m ∈ leadingMerges b.ops
  result : n.symbols.resolve? m.1 = some own
  ne : other ≠ own
  values : ∀ e ∈ m.2, n.incomingId m.1 e.2 = some own ∨ n.incomingId m.1 e.2 = some other

variable {m : Merge}

theorem merge_mem_defs {b : Lir.Block} (hm : m ∈ leadingMerges b.ops) : m.1 ∈ Lir.defs b.ops := by
  rw [leadingMerges_defs]
  exact mem_append_left _ (mem_map.2 ⟨m, hm, rfl⟩)

/-- The uses of a merge at the end of a block it names. -/
theorem mem_usesFrom {pred : BlockId} {v : ValueId} (h : (pred, .var v) ∈ m.2) :
    v ∈ Lir.Op.usesFrom pred (.phi m.1 m.2) := by
  refine mem_flatMap.2 ⟨_, h, ?_⟩
  rw [if_pos rfl]
  exact mem_singleton_self v

theorem merge_mem_ops {b : Lir.Block} (hm : m ∈ leadingMerges b.ops) : .phi m.1 m.2 ∈ b.ops := by
  rw [leadingMerges_append b.ops]
  exact mem_append_left _ (mem_map.2 ⟨m, hm, rfl⟩)

namespace Owned

variable {n : Names} {id own other i : Id} {l : FunctionLayout} {e : Function} (h : Owned n id l e)
  {b p : Lir.Block} {m : Merge} {passed : List Lir.Block} {x : ValueId}

include h

theorem merge_makes (hb : b ∈ n.scope.function.blocks) (hm : m ∈ leadingMerges b.ops)
    (hown : n.symbols.resolve? m.1 = some own) : l.Makes n.scope.function m.1 own := by
  obtain ⟨lb, hlb⟩ := h.blocksCode.layout hb
  obtain ⟨i, hzip, hi⟩ := (h.blocksCode.of_mem hlb).merges.of_mem hm
  cases hi with
  | @intro _ _ result _ _ hr =>
    cases hown.symm.trans hr
    refine ⟨_, mem_flatMap.2 ⟨(b, lb), hlb, mem_append_left _ (mem_append_left _
      (mem_map.2 ⟨_, hzip, rfl⟩))⟩, ?_⟩
    exact mem_singleton_self own

/-- A merge has a value for every block that leads to it. -/
theorem merge_covers (hb : b ∈ n.scope.function.blocks) (hm : m ∈ leadingMerges b.ops)
    (hp : p ∈ n.scope.function.blocks) (hs : b.id ∈ p.terminator.successors) :
    ∃ o, (p.id, o) ∈ m.2 := by
  obtain ⟨lb, hlb⟩ := h.blocksCode.layout hb
  obtain ⟨-, hperm⟩ := checkMerge_perm ((h.blocksCode.of_mem hlb).checked m hm)
  have hpred : p.id ∈ predecessors n.scope.function b.id :=
    mem_map.2 ⟨p, mem_filter.2 ⟨hp, by simpa using hs⟩, rfl⟩
  obtain ⟨⟨_, o⟩, hmem, rfl⟩ := mem_map.1 (hperm.mem_iff.2 hpred)
  exact ⟨o, hmem⟩

section Sources

variable {o : Lir.Operand} (hs : n.scope.function.StrictSSA)

include hs

/-- A value that reaches a merge and is inside the blocks is made before the end of the block it
comes from. -/
theorem incoming_root (hw : n.scope.function.Walk passed p)
    (hb : b ∈ n.scope.function.blocks) (hsucc : b.id ∈ p.terminator.successors)
    (hm : m ∈ leadingMerges b.ops) (ho : (p.id, o) ∈ m.2) (hi : n.incomingId m.1 o = some i)
    (hcode : i ∈ results l.code) : ∃ x, l.Makes n.scope.function x i ∧ x ∈ trace passed p.ops := by
  obtain ⟨k, -, hi⟩ := Option.bind_eq_some_iff.1 hi
  cases o with
  | const => exact absurd hcode (h.outer_not_code (.constant hi))
  | var v =>
    have hdefined := hs.merges passed p b hw hb hsucc _ (merge_mem_ops hm) v (mem_usesFrom ho)
    exact h.root hs hw (append_nil _).symm hdefined hi hcode

/-- A merge that takes its own value was reached on every path to there. -/
theorem own_defined (hw : n.scope.function.Walk passed p)
    (hb : b ∈ n.scope.function.blocks) (hsucc : b.id ∈ p.terminator.successors)
    (hm : m ∈ leadingMerges b.ops) (hresult : n.symbols.resolve? m.1 = some own)
    (ho : (p.id, o) ∈ m.2) (hown : n.incomingId m.1 o = some own) : m.1 ∈ trace passed p.ops := by
  have hmakes := h.merge_makes hb hm hresult
  obtain ⟨y, hy, hmem⟩ := h.incoming_root hs hw hb hsucc hm ho hown (h.mem_of_makes hmakes)
  rw [h.makes_unique hy hmakes] at hmem
  exact hmem

variable (hstart : ∀ b, n.scope.function.blocks.head? = some b → leadingMerges b.ops = [])
  (hm : Loops n b m own other)

include hstart hm

/-- Where a merge that names itself is reached, its other value has been made. The
first time the merge is reached the value cannot be its own. -/
theorem first_source (hother : other ∈ results l.code) (hw : n.scope.function.Walk passed b) :
    ∃ x, l.Makes n.scope.function x other ∧ x ∈ trace passed [] := by
  -- by induction on how much the path defines: if the value is the merge's own, the merge has been
  -- reached before, on a shorter path
  generalize hlen : (trace passed []).length = len
  induction len using Nat.strongRecOn generalizing passed with
  | ind len ih =>
    cases hw with
    | start hhead =>
      have hmem := hm.merge
      rw [hstart b hhead] at hmem
      cases hmem
    | @step u p _ hu hb hsucc =>
      have htrace : trace (u ++ [p]) [] = trace u p.ops := by simp [trace]
      rw [htrace] at hlen ⊢
      obtain ⟨o, ho⟩ := h.merge_covers hb hm.merge hu.mem hsucc
      rcases hm.values _ ho with hown | hvalue
      · have hmem := h.own_defined hs hu hb hsucc hm.merge hm.result ho hown
        obtain ⟨u', hu', hshort, hsub⟩ :=
          hs.reached hu (append_nil _).symm hmem hb (merge_mem_defs hm.merge)
        obtain ⟨x, hx, hxmem⟩ := ih _ (hlen ▸ hshort) hu' rfl
        exact ⟨x, hx, hsub hxmem⟩
      · exact h.incoming_root hs hu hb hsucc hm.merge ho hvalue hother

/-- The other value of a merge that names itself is not made in the block of the merge. -/
theorem maker_elsewhere (hx : l.Makes n.scope.function x other)
    (hw : n.scope.function.Walk passed b) : x ∉ Lir.defs b.ops := by
  intro hxb
  generalize hlen : (trace passed []).length = len
  induction len using Nat.strongRecOn generalizing passed with
  | ind len ih =>
    obtain ⟨y, hy, hmem⟩ := h.first_source hs hstart hm (h.mem_of_makes hx) hw
    rw [h.makes_unique hy hx] at hmem
    obtain ⟨u, hu, hshort, -⟩ := hs.reached hw (nil_append _).symm hmem hw.mem hxb
    exact ih _ (hlen ▸ hshort) hu rfl

/-- Where a merge takes its own value, its other value has not been made again
since the merge was last reached. -/
theorem unchanged_since (hw : n.scope.function.Walk passed p)
    (hsucc : b.id ∈ p.terminator.successors) (ho : (p.id, o) ∈ m.2)
    (hown : n.incomingId m.1 o = some own) :
    ∃ t t', trace passed p.ops = t ++ m.1 :: t' ∧
      ∀ x, l.Makes n.scope.function x other → x ∉ t' := by
  have huse : ∀ u, n.scope.function.Walk u p → m.1 ∈ trace u p.ops := fun u hu =>
    h.own_defined hs hu hm.block hsucc hm.merge hm.result ho hown
  by_cases hmaker : ∃ x, l.Makes n.scope.function x other
  · obtain ⟨x, hx⟩ := hmaker
    have hxb := h.maker_elsewhere hs hstart hm hx (.step hw hm.block hsucc)
    have hne : x ≠ m.1 := fun heq => hxb (heq ▸ merge_mem_defs hm.merge)
    have hprec : ∀ u d bd o ad, n.scope.function.Walk u d → d.ops = bd ++ o :: ad →
        o.dst? = some m.1 → x ∈ trace u bd := by
      intro u d bd o ad hu hops ho
      obtain rfl := hs.block_unique hu.mem hm.block (Lir.Function.mem_defs_of_split hops ho)
        (merge_mem_defs hm.merge)
      obtain ⟨y, hy, hmem⟩ := h.first_source hs hstart hm (h.mem_of_makes hx) hu
      rw [h.makes_unique hy hx] at hmem
      exact mem_append_left _ (by simpa [trace] using hmem)
    obtain ⟨t, t', hsplit, hnot⟩ := hs.fresh hne hprec hw (append_nil _).symm huse
    refine ⟨t, t', hsplit, fun y hy => ?_⟩
    rw [h.makes_unique hy hx]
    exact hnot
  · obtain ⟨t, t', hsplit⟩ := append_of_mem (huse passed hw)
    exact ⟨t, t', hsplit, fun y hy => absurd ⟨y, hy⟩ hmaker⟩

/-- As long as its maker is not reached, the other value of a merge that names itself
is not set. -/
theorem other_kept {c : Lir.Block} {lc : BlockLayout} (hw : n.scope.function.Walk passed c)
    (hc : (c, lc) ∈ n.scope.function.blocks.zip l.blocks) {t t' : List ValueId}
    (ht : trace passed c.ops = t ++ m.1 :: t') (hx : ∀ x, l.Makes n.scope.function x other → x ∉ t')
    : other ∉ results lc.code := by
  intro hmem
  -- the piece of the block that sets the value belongs to its maker
  have hcode : other ∈ results l.code := by
    rw [FunctionLayout.code, results_flatMap]
    exact mem_flatMap.2 ⟨lc, (of_mem_zip hc).2, hmem⟩
  have hreached : m.1 ∈ trace passed c.ops := by simp [ht]
  obtain ⟨u, hu, -⟩ := hs.reached hw (append_nil _).symm hreached hm.block (merge_mem_defs hm.merge)
  obtain ⟨x, hmakes, -⟩ := h.first_source hs hstart hm hcode hu
  have hxc : x ∈ Lir.defs c.ops := by
    have hpieces := (h.blocksCode.of_mem hc).pieces_code
    rw [← hpieces, results_flatMap] at hmem
    obtain ⟨piece, hpiece, hin⟩ := mem_flatMap.1 hmem
    obtain ⟨cx, hcx, hin'⟩ := hmakes
    cases h.piece_unique (mem_flatMap.2 ⟨(c, lc), hc, hpiece⟩) hcx hin hin'
    exact BlockLayout.defs_of_piece hpiece
  by_cases hmc : m.1 ∈ Lir.defs c.ops
  · obtain rfl := hs.block_unique hw.mem hm.block hmc (merge_mem_defs hm.merge)
    exact h.maker_elsewhere hs hstart hm hmakes hw hxc
  · -- the merge was last reached before this block, so all of the block comes after it
    obtain ⟨w, -, rfl⟩ := split_left ht hmc
    exact hx x hmakes (mem_append_right _ hxc)

end Sources

variable {c : Lir.Block} {lc : BlockLayout} (hc : (c, lc) ∈ n.scope.function.blocks.zip l.blocks)

include hc

theorem block_nodup : (results lc.merges ++ results lc.tail).Nodup := by
  have hnodup := h.code_nodup
  obtain ⟨u, w, hsplit⟩ := append_of_mem (of_mem_zip hc).2
  rw [FunctionLayout.code, results_flatMap, hsplit, flatMap_append, flatMap_cons,
    BlockLayout.code, results_append] at hnodup
  exact (nodup_append.1 (nodup_append.1 hnodup).2.1).1

/-- The own id of a merge is set in the block of the merge only. -/
theorem own_in_code (hb : b ∈ n.scope.function.blocks) (hm : m ∈ leadingMerges b.ops)
    (hown : n.symbols.resolve? m.1 = some own) (hmem : own ∈ results lc.code) :
    c = b ∧ own ∈ results lc.merges := by
  obtain ⟨lb, hlb⟩ := h.blocksCode.layout hb
  obtain ⟨i, hzip, hi⟩ := (h.blocksCode.of_mem hlb).merges.of_mem hm
  have hmerges : own ∈ results lb.merges := by
    cases hi with
    | intro hr =>
      cases hown.symm.trans hr
      exact mem_filterMap.2 ⟨_, (of_mem_zip hzip).2, rfl⟩
  have hnodup := h.code_nodup
  rw [FunctionLayout.code, results_flatMap] at hnodup
  have hsame : lc = lb := by
    refine eq_of_mem_flatMap hnodup (of_mem_zip hc).2 (of_mem_zip hlb).2 hmem ?_
    rw [BlockLayout.code, results_append]
    exact mem_append_left _ hmerges
  exact ⟨(h.layout_unique hc hlb (hsame ▸ rfl)).1, hsame ▸ hmerges⟩

/-- The own id of a merge is not set after the merges. -/
theorem own_not_tail (hb : b ∈ n.scope.function.blocks) (hm : m ∈ leadingMerges b.ops)
    (hown : n.symbols.resolve? m.1 = some own) : own ∉ results lc.tail := by
  intro hmem
  have hcode : own ∈ results lc.code := by
    rw [BlockLayout.code, results_append]
    exact mem_append_right _ hmem
  obtain ⟨-, hmerges⟩ := h.own_in_code hc hb hm hown hcode
  exact (nodup_append.1 (h.block_nodup hc)).2.2 own hmerges own hmem rfl

end Owned

end KernelForge.Codegen
