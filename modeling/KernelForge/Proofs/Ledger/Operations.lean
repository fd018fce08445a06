import KernelForge.Proofs.Ledger.Body

/-!
# Operations keep the ledger

The operations of a block, its terminator and its merges keep the ledger of the body. Only merges
need an argument of their own: they take the ids of all their results before the first of them is
appended, so that several ids are held at once.
-/

namespace KernelForge.Codegen

open List
open Lir (Kind ValueId BlockId Terminator)
open Spirv
open Body (Knows Tidy)

namespace Emit

variable [Opening] {scope : Scope} {needs : List Id}

theorem op_safe (o : Lir.Op) : Safe scope (op o) needs fun _ => [] :=
  (recipe_safe _ (nil_subset _)).bind fun _ => .pure (nil_subset _)

/-! ## Terminators -/

variable {operands : List Operand}

theorem terminate_safe {opcode : Opcode} (hop : opcode.isTerminator = true)
    (h : refs operands ⊆ needs) : Safe scope (terminate opcode operands) needs fun _ => [] := by
  refine build_safe (Build.place_safe (by simpa [Instruction.mentions] using h) rfl ?_ ?_)
  · rintro rfl
    cases hop
  · rintro rfl
    cases hop

theorem selected_safe (selection : Select Temp) :
    Safe scope (selected selection) needs fun id => [id] :=
  (recipe_safe selection (nil_subset _)).bind fun r => temp_safe r.1 (by simp)

theorem loopHint_safe (hint : Option Lir.LoopHint)
    (h : ∀ l ∈ hint, Named scope.function l.merge ∧ Named scope.function l.continueTarget) :
    Safe scope (loopHint hint) needs fun _ => [] := by
  cases hint with
  | none => exact .pure (nil_subset _)
  | some l =>
    obtain ⟨hmerge, hcontinue⟩ := h l rfl
    refine (label_safe hmerge).bind fun m => (label_safe hcontinue).bind fun c => ?_
    exact emitVoid_safe _ (by simp)

theorem switchCase_safe (wide : Bool) {case : Int64 × BlockId}
    (h : Named scope.function case.2) : Safe scope (switchCase wide case) needs refs := by
  refine (label_safe h).bind fun l => .pure ?_
  unfold caseNumber
  split <;> simp

theorem terminator_safe (t : Terminator) (h : ∀ block ∈ targets t, Named scope.function block) :
    Safe scope (terminator t) needs fun _ => [] := by
  cases t with
  | jump target =>
    refine (label_safe (h target (by simp [targets, Terminator.successors]))).bind fun l => ?_
    exact terminate_safe rfl (by simp)
  | branch cond onTrue onFalse hint =>
    have htrue : onTrue ∈ targets (.branch cond onTrue onFalse hint) := by
      cases hint <;> simp [targets, Terminator.successors]
    have hfalse : onFalse ∈ targets (.branch cond onTrue onFalse hint) := by
      cases hint <;> simp [targets, Terminator.successors]
    have hloop : ∀ l ∈ hint, Named scope.function l.merge ∧
      Named scope.function l.continueTarget := by
      rintro l rfl
      exact ⟨h _ (by simp [targets]), h _ (by simp [targets])⟩
    refine (selected_safe _).bind fun c => (label_safe (h _ htrue)).bind fun t => ?_
    refine (label_safe (h _ hfalse)).bind fun f => (loopHint_safe hint hloop).bind fun _ => ?_
    exact terminate_safe rfl (by simp)
  | switch selector cases default =>
    refine (recipe_safe _ (nil_subset _)).bind fun r => ?_
    refine (temp_safe r.1.1 (by simp)).bind fun value => ?_
    have hdefault : Named scope.function default := h _ (by simp [targets, Terminator.successors])
    refine (label_safe hdefault).bind fun d => ?_
    have hcases : ∀ c ∈ cases, Named scope.function c.2 := by
      intro c hc
      refine h c.2 ?_
      simp only [targets, Terminator.successors, mem_append, mem_map]
      exact .inl ⟨c, hc, rfl⟩
    refine (Safe.mapM fun c hc => switchCase_safe _ (hcases c hc)).bind fun targets => ?_
    exact terminate_safe rfl (by simp [refs_flatten])
  | ret value =>
    cases value with
    | none =>
      refine .surroundings (.read ?_)
      cases hr : scope.returnBlock with
      | some => exact terminate_safe rfl (by simp [Scope.returnBlock_mem hr])
      | none => exact terminate_safe rfl (by simp)
    | some =>
      refine .read ?_
      dsimp only
      split
      · exact .fail
      · exact (selected_safe _).bind fun id => terminate_safe rfl (by simp)
  | unreachable => exact terminate_safe rfl (by simp)

/-! ## Merges -/

variable {preds sources : List BlockId}

omit [Opening] in
theorem checkSources_ok {merge : BlockId} {seen : List BlockId}
    (h : checkSources merge preds seen sources = .ok ()) :
    sources.Nodup ∧ ∀ block ∈ sources, block ∈ preds ∧ block ∉ seen := by
  fun_induction checkSources merge preds seen sources with
  | case1 => simp
  | case2 | case3 => cases h
  | case4 seen block rest hin hseen ih =>
    obtain ⟨hnodup, hrest⟩ := ih h
    refine ⟨nodup_cons.2 ⟨fun hb => (hrest block hb).2 mem_cons_self, hnodup⟩, ?_⟩
    rw [forall_mem_cons]
    refine ⟨⟨Decidable.of_not_not hin, hseen⟩, fun b hb => ?_⟩
    obtain ⟨hpred, hnew⟩ := hrest b hb
    exact ⟨hpred, fun hmem => hnew (mem_cons_of_mem _ hmem)⟩

omit [Opening] in
theorem checkMerge_ok {merge : BlockId} (h : checkMerge merge preds sources = .ok ()) :
    ∀ block ∈ sources, block ∈ preds := by
  unfold checkMerge at h
  cases hc : checkSources merge preds [] sources with
  | error =>
    rw [hc] at h
    cases h
  | ok => exact fun block hb => ((checkSources_ok hc).2 block hb).1

omit [Opening] in
/-- A check of merges that succeeds changes nothing. -/
theorem checkIncoming_ok {block : BlockId} {ms : List Merge} {b b' : Body} {u : PUnit}
    (h : (ms.forM (checkIncoming block preds)) scope b = .ok u b') :
    b = b' ∧ ∀ m ∈ ms, checkMerge block preds (m.2.map Prod.fst) = .ok () := by
  induction ms with
  | nil =>
    obtain ⟨_, rfl⟩ := pure_ok.1 h
    exact ⟨rfl, by simp⟩
  | cons m ms ih =>
    obtain ⟨_, b₁, hfirst, hrest⟩ := bind_ok.1 h
    simp only [checkIncoming] at hfirst
    cases hc : checkMerge block preds (m.2.map Prod.fst) with
    | error =>
      rw [hc] at hfirst
      exact absurd hfirst throw_ok
    | ok =>
      rw [hc] at hfirst
      obtain ⟨_, rfl⟩ := pure_ok.1 hfirst
      obtain ⟨rfl, hall⟩ := ih hrest
      exact ⟨rfl, forall_mem_cons.2 ⟨hc, hall⟩⟩

omit [Opening] in
theorem owns_of_predecessor {f : Lir.Function} {block pred : BlockId}
    (h : pred ∈ predecessors f block) : Owns f pred := by
  obtain ⟨b, hb, rfl⟩ := mem_map.1 h
  exact mem_map_of_mem (mem_filter.1 hb).1

/-- Ids of a merge's values and labels. -/
def pairIds (p : Id × Id) : List Id := [p.1, p.2]

variable {merged : List (ValueId × Id)}

theorem mergeValue_safe (predCount : Nat) (dst : ValueId) (k : Kind) (o : Lir.Operand)
    (h : merged.map Prod.snd ⊆ needs) :
    Safe scope (mergeValue merged predCount dst k o) needs fun id => [id] := by
  cases o with
  | const => exact constant_safe _ _
  | var v =>
    simp only [mergeValue]
    split
    · next e he =>
      refine Safe.pure ?_
      have hmem : e.2 ∈ merged.map Prod.snd := mem_map.2 ⟨e, mem_of_find?_eq_some he, rfl⟩
      simpa using h hmem
    · refine Safe.get (fun b => (b.symbols.resolve? v).toList) ?_ fun b => ?_
      · intro b opened held hb id hid
        exact hb.resolve_known (Option.mem_toList.1 hid)
      · cases b.symbols.resolve? v with
        | some => exact Safe.pure (by simp)
        | none =>
          dsimp only
          split
          · exact reserve_safe v
          · exact Safe.fail

theorem mergePairs_safe (predCount : Nat) (dst : ValueId) (k : Kind)
    {incoming : List (BlockId × Lir.Operand)} (h : merged.map Prod.snd ⊆ needs)
    (hb : ∀ e ∈ incoming, Named scope.function e.1) :
    Safe scope (mergePairs merged predCount dst k incoming) needs
      fun pairs => pairs.flatMap pairIds := by
  refine .mapM fun e he => ?_
  refine (mergeValue_safe predCount dst k e.2 h).bind fun value => ?_
  exact (label_safe (hb e he)).bind fun l => .pure (by simp [pairIds])

omit [Opening] in
theorem refs_mergeOperands {result : Id} {pairs : List (Id × Id)}
    (h : mergeOperands result pairs = some operands) : refs operands ⊆ pairs.flatMap pairIds := by
  obtain ⟨other, hfind, rfl⟩ := Option.map_eq_some_iff.1 h
  have hother := mem_of_find?_eq_some hfind
  have hsub : ∀ l : List (Id × Id), l ⊆ pairs →
      refs (l.flatMap fun p => [.ref (if p.1 = result then other.1 else p.1), .ref p.2])
        ⊆ pairs.flatMap pairIds := by
    intro l hl
    induction l with
    | nil => simp
    | cons p l ih =>
      obtain ⟨hp, hl⟩ := cons_subset.1 hl
      rw [flatMap_cons, refs_append, append_subset]
      refine ⟨?_, ih hl⟩
      intro id hid
      rw [mem_flatMap]
      rcases mem_cons.1 hid with rfl | hid
      · split
        · exact ⟨other, hother, by simp [pairIds]⟩
        · exact ⟨p, hp, by simp [pairIds]⟩
      · rw [mem_singleton.1 hid]
        exact ⟨p, hp, by simp [pairIds]⟩
  exact hsub pairs (List.Subset.refl _)

theorem merge_takes (predCount : Nat) {m : Merge} {result : Id} (h : merged.map Prod.snd ⊆ needs)
    (hb : ∀ e ∈ m.2, Named scope.function e.1) (opened : List BlockId) (held : List Id) :
    Takes (Tidy scope opened (result :: held)) Knows
      (merge merged predCount m result scope) needs (fun _ => Tidy scope opened held)
      fun _ => [] := by
  simp only [merge, bind_apply]
  refine (kindOf_safe m.1 opened _).bind fun k => (typeOf_safe k opened _).bind fun type => ?_
  have hm : merged.map Prod.snd ⊆ [type] ++ ([] ++ needs) := by
    refine List.Subset.trans h ?_
    simp
  refine (mergePairs_safe predCount m.1 k hm hb opened _).bind fun pairs => ?_
  cases hop : mergeOperands result pairs with
  | none => exact Takes.throw
  | some =>
    refine emitAs_takes _ ?_ opened held
    have hrefs := refs_mergeOperands hop
    refine cons_subset.2 ⟨by simp, List.Subset.trans hrefs (by simp)⟩

/-- The ids of all merges of a block are held at once. -/
theorem mergeResults_takes (ms : List Merge) (opened : List BlockId) (held : List Id) :
    Takes (Tidy scope opened held) Knows
      ((ms.mapM fun m => resultFor m.1) scope) needs
      (fun results b => results.length = ms.length ∧ b.Tidy scope opened (results ++ held))
      fun results => results := by
  rw [mapM_apply]
  induction ms generalizing held needs with
  | nil =>
    intro b results b' hb hn hrun
    obtain ⟨rfl, rfl⟩ := pure_ok.1 hrun
    exact ⟨⟨rfl, hb⟩, fun _ hid => hid, by simp⟩
  | cons m ms ih =>
    rw [mapM_cons]
    refine (resultFor_takes m.1 opened held).bind fun result => ?_
    refine (ih (result :: held)).bind fun results => ?_
    intro b all b' hb hn hrun
    obtain ⟨rfl, rfl⟩ := pure_ok.1 hrun
    refine ⟨⟨by simp [hb.1], hb.2.perm perm_middle⟩, fun _ hid => hid, fun id hid => hn id ?_⟩
    simp only [mem_cons, mem_append] at hid ⊢
    rcases hid with hid | hid
    · exact .inr (.inl (.inl hid))
    · exact .inl hid

/-- Each merge settles the id it holds. -/
theorem mergeAll_takes (predCount : Nat) {ms : List Merge} {results : List Id}
    (hlen : results.length = ms.length) (h : merged.map Prod.snd ⊆ needs)
    (hb : ∀ m ∈ ms, ∀ e ∈ m.2, Named scope.function e.1) (opened : List BlockId) (held : List Id) :
    Takes (Tidy scope opened (results ++ held)) Knows
      (((ms.zip results).forM fun (m, result) => merge merged predCount m result) scope) needs
      (fun _ => Tidy scope opened held) fun _ => [] := by
  induction ms generalizing results with
  | nil =>
    rw [length_eq_zero_iff.1 hlen]
    exact .pure (nil_subset _)
  | cons m ms ih =>
    cases results with
    | nil => cases hlen
    | cons result results =>
      have hrest := ih (Nat.succ.inj hlen) fun m hm => hb m (mem_cons_of_mem _ hm)
      exact (merge_takes predCount h (hb m mem_cons_self) opened (results ++ held)).bind
        fun _ => hrest

/-- The merges of a block keep the ledger. -/
theorem merges_safe (block : Lir.Block) : Safe scope (merges block) needs fun _ => [] := by
  intro opened held b u b' htidy hn hrun
  simp only [merges, bind_apply] at hrun
  obtain ⟨_, _, hread, hrun⟩ := bind_ok.1 hrun
  obtain ⟨rfl, rfl⟩ := pure_ok.1 hread
  obtain ⟨_, b₁, hcheck, hrun⟩ := bind_ok.1 hrun
  obtain ⟨rfl, hsources⟩ := checkIncoming_ok hcheck
  have howns : ∀ m ∈ leadingMerges block.ops, ∀ e ∈ m.2, Named scope.function e.1 :=
    fun m hm e he =>
    fun _ => owns_of_predecessor (checkMerge_ok (hsources m hm) e.1 (mem_map_of_mem he))
  obtain ⟨results, b₁, hresults, hrun⟩ := bind_ok.1 hrun
  obtain ⟨⟨hlen, htidy₁⟩, hmono₁, hknown⟩ := mergeResults_takes _ opened held htidy hn hresults
  obtain ⟨_, b₂, hmerges, hdefine⟩ := bind_ok.1 hrun
  have hsub : (((leadingMerges block.ops).map Prod.fst).zip results).map Prod.snd ⊆ results := by
    intro id hid
    obtain ⟨e, he, rfl⟩ := mem_map.1 hid
    exact (of_mem_zip he).2
  obtain ⟨htidy₂, hmono₂, -⟩ := mergeAll_takes _ hlen hsub howns opened held htidy₁ hknown hmerges
  obtain ⟨htidy₃, hmono₃, -⟩ :=
    Safe.forM (fun e he => define_safe e.1 (of_mem_zip he).2) opened held htidy₂
      (fun id hid => hmono₂ id (hknown id hid)) hdefine
  exact ⟨htidy₃, fun id hid => hmono₃ id (hmono₂ id (hmono₁ id hid)), by simp⟩

end Emit

end KernelForge.Codegen
