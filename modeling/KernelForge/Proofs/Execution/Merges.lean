import KernelForge.Proofs.Execution.Places
import KernelForge.Proofs.Layout.Merges

/-!
# What merges receive

A merge that is entered from a block receives the value that its operand for the block has there. A
merge that names itself is emitted with the first other value in the place of its own: it still
receives its own value if all other values are one, and otherwise it may not.
-/

namespace KernelForge.Codegen

open List
open Lir (Kind BlockId)
open Lir.Function (trace)
open Spirv
open Device (Env Locals Frame Value)
open Instruction (asRead)

/-! ## Entering a block -/

theorem incoming_pairs (label : Id) (g : Id → Id) (pairs : List (Id × Id)) :
    Env.incoming label (pairs.flatMap fun p => [.ref (g p.1), .ref p.2]) =
      (pairs.find? fun p => p.2 == label).map fun p => g p.1 := by
  induction pairs with
  | nil => rfl
  | cons p pairs ih =>
    rw [flatMap_cons, cons_append, cons_append, nil_append, Env.incoming, List.find?_cons, ih]
    by_cases hp : p.2 = label
    · rw [if_pos hp, beq_iff_eq.2 hp]
      rfl
    · rw [if_neg hp, beq_false_of_ne hp]

/-- The id a merge takes its value from when its operand has an id; its own id gives way
to the first other one. -/
def Names.Receives (n : Names) (m : Merge) (own operand received : Id) : Prop :=
  (operand ≠ own ∧ received = operand) ∨ (operand = own ∧
    (m.2.filterMap fun e => n.incomingId m.1 e.2).find? (· != own) = some received)

section Enter

variable {n : Names} {env : Env}

variable {pairs : List (Id × Id)}

theorem mergePairs_fst {k : Kind} {incoming : List (BlockId × Lir.Operand)}
    (h : incoming.mapM (n.mergePair k) = some pairs) :
    (incoming.filterMap fun e => n.mergeId k e.2) = pairs.map Prod.fst := by
  induction incoming generalizing pairs with
  | nil =>
    cases h
    rfl
  | cons e incoming ih =>
    rw [mapM_cons] at h
    obtain ⟨p, hp, h⟩ := Option.bind_eq_some_iff.1 h
    obtain ⟨rest, hrest, h⟩ := Option.bind_eq_some_iff.1 h
    cases h
    obtain ⟨hv, -⟩ := Names.mergePair_iff.1 hp
    rw [filterMap_cons, hv, ih hrest, map_cons]

theorem mergePairs_mem {k : Kind} {incoming : List (BlockId × Lir.Operand)}
    (h : incoming.mapM (n.mergePair k) = some pairs) :
    (∀ p ∈ pairs, ∃ e ∈ incoming, n.mergePair k e = some p) ∧
      ∀ e ∈ incoming, ∃ p ∈ pairs, n.mergePair k e = some p := by
  rw [mapM_some_iff] at h
  constructor
  · intro p hp
    exact mem_map.1 (h ▸ mem_map_of_mem hp : some p ∈ incoming.map (n.mergePair k))
  · intro e he
    obtain ⟨p, hp, heq⟩ := mem_map.1 (h ▸ mem_map_of_mem he : n.mergePair k e ∈ pairs.map some)
    exact ⟨p, hp, heq.symm⟩

/-- A merge entered from a label that names one block takes the id it receives from there. -/
theorem MergeCode.incoming {m : Merge} {i : Instruction} (h : MergeCode n m i)
    (hnodup : (m.2.map Prod.fst).Nodup) {pred : BlockId} {o : Lir.Operand} {label : Id}
    (ho : (pred, o) ∈ m.2)
    (hpred : ∀ block, n.symbols.labels.get? block = some label ↔ block = pred) :
    ∃ own operand received, n.symbols.resolve? m.1 = some own ∧ i.result = some own ∧
      n.incomingId m.1 o = some operand ∧ Env.incoming label i.operands = some received ∧
      n.Receives m own operand received := by
  cases h with
  | @intro k type own pairs operands hv hk ht hp hops =>
    obtain ⟨hto, hfrom⟩ := mergePairs_mem hp
    obtain ⟨p, hmem, hpair⟩ := hfrom _ ho
    obtain ⟨hid, hlabel⟩ := Names.mergePair_iff.1 hpair
    obtain rfl : label = p.2 := Option.some.inj (((hpred pred).2 rfl).symm.trans hlabel)
    have hincoming : n.incomingId m.1 o = some p.1 := by
      rw [Names.incomingId, hk]
      exact hid
    -- the pair that is found is that of the operand
    have hfound : pairs.find? (fun p' => p'.2 == p.2) = some p := by
      cases hfind : pairs.find? (fun p' => p'.2 == p.2) with
      | none =>
        have hnone := List.find?_eq_none.1 hfind p hmem
        simp at hnone
      | some p' =>
        have hp' := List.find?_some hfind
        obtain ⟨e', he', hpair'⟩ := hto p' (mem_of_find?_eq_some hfind)
        have hl' := (Names.mergePair_iff.1 hpair').2
        rw [beq_iff_eq.1 hp', hpred] at hl'
        have hsame : e' = (pred, o) := by
          refine eq_of_mem_flatMap (g := fun e : BlockId × Lir.Operand => [e.1])
            (x := pred) ?_ he' ho
            (mem_singleton.2 hl'.symm) (mem_singleton_self pred)
          rw [← map_eq_flatMap]
          exact hnodup
        rw [hsame, hpair] at hpair'
        exact hpair'.symm
    obtain ⟨other, hother, rfl⟩ := Option.map_eq_some_iff.1 hops
    refine ⟨own, p.1, if p.1 = own then other.1 else p.1, hv, rfl, hincoming, ?_, ?_⟩
    · exact (incoming_pairs p.2 (fun id => if id = own then other.1 else id) pairs).trans (by
        rw [hfound]
        rfl)
    · by_cases hown : p.1 = own
      · have hids : (m.2.filterMap fun e => n.incomingId m.1 e.2) = pairs.map Prod.fst := by
          simp only [Names.incomingId, hk]
          exact mergePairs_fst hp
        refine .inr ⟨hown, ?_⟩
        rw [hids, List.find?_map, if_pos hown]
        exact Option.map_eq_some_iff.2 ⟨other, hother, rfl⟩
      · exact .inl ⟨hown, if_neg hown⟩

end Enter

/-- What the values of merges are after all of them were set together. -/
theorem merged_spec {env : Env} {locals : Locals} {previous : Option Id} {is : List Instruction}
    {merged : List (Id × Value)} (hnodup : (results is).Nodup)
    (h : is.mapM (env.merge locals previous) = .ok merged) :
    (∀ id ∉ results is,
      (merged.foldl (fun (l : Locals) e => l.insert e.1 e.2) locals)[id]? = locals[id]?) ∧
    ∀ i ∈ is, ∃ label id own v, previous = some label ∧ Env.incoming label i.operands = some id ∧
      i.result = some own ∧ env.value locals id = .ok v ∧
      (merged.foldl (fun (l : Locals) e => l.insert e.1 e.2) locals)[own]? = some v := by
  have hkeys : merged.map Prod.fst = results is := by
    clear hnodup
    induction is generalizing merged with
    | nil =>
      cases h
      rfl
    | cons i is ih =>
      obtain ⟨e, rest, he, hrest, rfl⟩ := except_mapM_cons_ok.1 h
      obtain ⟨_, _, _, _, hr, _⟩ := Env.merge_ok he
      rw [results, filterMap_cons_some hr, map_cons, ih hrest]
      rfl
  constructor
  · intro id hid
    exact Env.setAll_other (hkeys ▸ hid)
  · intro i hi
    have hmem : env.merge locals previous i ∈ merged.map Except.ok := by
      rw [← except_mapM_ok_iff.1 h]
      exact mem_map.2 ⟨i, hi, rfl⟩
    obtain ⟨e, he, heq⟩ := mem_map.1 hmem
    obtain ⟨label, id, hprevious, hid, hr, hv⟩ := Env.merge_ok heq.symm
    exact ⟨label, id, e.1, e.2, hprevious, hid, hr, hv, Env.setAll_self (hkeys ▸ hnodup) he⟩

namespace Owned

variable {n : Names} {id own other : Id} {l : FunctionLayout} {e : Function} (h : Owned n id l e)
  {b p : Lir.Block} {lb lp : BlockLayout} {m : Merge} {env : Env} {f frame : Frame}

include h

/-- Entering a block sets its merges and nothing else. -/
theorem enter_block (hlb : (b, lb) ∈ n.scope.function.blocks.zip l.blocks) {d : Device.Block}
    {previous : Option Id} (hbody : d.body = lb.merges ++ lb.tail.map asRead)
    (he : env.enter f previous d = .ok frame) :
    ∃ locals, frame = { f with
        locals, label := d.label, rest := lb.tail.map .asRead } ∧
      (∀ id ∉ results lb.merges, locals[id]? = f.locals[id]?) ∧
      ∀ i ∈ lb.merges, ∃ label id own v, previous = some label ∧
        Env.incoming label i.operands = some id ∧ i.result = some own ∧
        env.value f.locals id = .ok v ∧ locals[own]? = some v := by
  obtain ⟨merged, hmerged, rfl⟩ := Env.enter_ok.1 he
  obtain ⟨htake, hdrop⟩ := (h.blocksCode.of_mem hlb).split_merges
  rw [hbody, htake] at hmerged
  rw [hbody, hdrop]
  obtain ⟨hkept, hset⟩ := merged_spec (nodup_append.1 (h.block_nodup hlb)).1 hmerged
  exact ⟨_, rfl, hkept, hset⟩

/-- A label of a block names the block and no other. -/
theorem label_iff (hlb : (b, lb) ∈ n.scope.function.blocks.zip l.blocks) (t : BlockId) :
    n.symbols.labels.get? t = some lb.label ↔ t = b.id := by
  constructor
  · exact h.label_eq hlb
  · rintro rfl
    exact (h.blocksCode.of_mem hlb).label

/-- A merge that is entered from a block has received a value from there. -/
theorem received (hlp : (p, lp) ∈ n.scope.function.blocks.zip l.blocks)
    (hlb : (b, lb) ∈ n.scope.function.blocks.zip l.blocks) {d : Device.Block}
    (hbody : d.body = lb.merges ++ lb.tail.map asRead)
    (he : env.enter f (some lp.label) d = .ok frame) (hm : m ∈ leadingMerges b.ops)
    {o : Lir.Operand} (ho : (p.id, o) ∈ m.2) :
    ∃ own operand received v, n.symbols.resolve? m.1 = some own ∧
      n.incomingId m.1 o = some operand ∧ n.Receives m own operand received ∧
      env.value f.locals received = .ok v ∧ env.value frame.locals own = .ok v := by
  have hcode := h.blocksCode.of_mem hlb
  obtain ⟨i, hzip, hi⟩ := hcode.merges.of_mem hm
  obtain ⟨locals, rfl, -, hset⟩ := h.enter_block hlb hbody he
  obtain ⟨label, id, own', v, hlabel, hid, hown', hv, hget⟩ := hset i (of_mem_zip hzip).2
  cases hlabel
  obtain ⟨hnodup, -⟩ := checkMerge_perm (hcode.checked m hm)
  obtain ⟨own, operand, received, hown, hr, hoperand, hreceived, hreceives⟩ :=
    hi.incoming hnodup ho (h.label_iff hlp)
  cases hr.symm.trans hown'
  cases hid.symm.trans hreceived
  exact ⟨_, operand, _, v, hown, hoperand, hreceives, hv, Env.value_of_get hget⟩

end Owned

/-! ## Merges that name themselves, in a run -/

/-- Since it was last reached, a merge that names itself has had its other value, as
long as that value was not made again. -/
def Settled (env : Env) (n : Names) (l : FunctionLayout) (locals : Locals)
    (passed : List Lir.Block) (b : Lir.Block) : Prop :=
  ∀ c m own other, Loops n c m own other → ∀ t t', trace passed b.ops = t ++ m.1 :: t' →
    (∀ x, l.Makes n.scope.function x other → x ∉ t') →
    env.value locals own = env.value locals other

/-- A frame inside a block, after a path that led there. -/
structure InBlock (env : Env) (n : Names) (l : FunctionLayout) (passed : List Lir.Block)
    (b : Lir.Block) (lb : BlockLayout) (f : Frame) : Prop where
  /-- The entry has no merges, or it would not have been entered. -/
  start : ∀ b, n.scope.function.blocks.head? = some b → leadingMerges b.ops = []
  walk : n.scope.function.Walk passed b
  layout : (b, lb) ∈ n.scope.function.blocks.zip l.blocks
  label : f.label = lb.label
  rest : f.rest <:+ lb.tail.map asRead
  settled : n.scope.function.StrictSSA → Settled env n l f.locals passed b

/-- Where a frame of a function stands, with the instructions around it. -/
inductive At (env : Env) (n : Names) (l : FunctionLayout) : List Instruction → Frame → Prop
  | prologue {f : Frame} (hl : f.label = l.first)
      (hr : f.rest <:+ l.prologue.map asRead) :
      At env n l (l.prologue.map asRead) f
  | block {passed : List Lir.Block} {b : Lir.Block} {lb : BlockLayout} {f : Frame}
      (h : InBlock env n l passed b lb f) : At env n l (lb.tail.map asRead) f
  | leaving {f : Frame} (hl : n.scope.returnBlock = some f.label)
      (hr : f.rest <:+ [⟨.returnVoid, none, none, []⟩]) :
      At env n l [⟨.returnVoid, none, none, []⟩] f

namespace At

variable {env : Env} {n : Names} {l : FunctionLayout} {c : List Instruction} {f : Frame}
  {i : Instruction} {rest : List Instruction}

theorem suffix (h : At env n l c f) : f.rest <:+ c := by
  cases h with
  | prologue _ hr | leaving _ hr => exact hr
  | block h => exact h.rest

theorem mem (h : At env n l c f) (hi : f.rest = i :: rest) : i ∈ c :=
  h.suffix.subset (hi ▸ mem_cons_self)

/-- One instruction further. -/
theorem next (h : At env n l c f) (hi : f.rest = i :: rest) : At env n l c { f with rest } := by
  have hsuffix : rest <:+ f.rest := hi ▸ suffix_cons i rest
  cases h with
  | prologue hl hr => exact .prologue hl (hsuffix.trans hr)
  | block h =>
    exact .block ⟨h.start, h.walk, h.layout, h.label, hsuffix.trans h.rest, h.settled⟩
  | leaving hl hr => exact .leaving hl (hsuffix.trans hr)

end At

/-- A merge all of whose values but its own are one receives that one. -/
theorem Loops.received {n : Names} {b : Lir.Block} {m : Merge} {own other operand received : Id}
    (hm : Loops n b m own other) {pred : BlockId} {o : Lir.Operand} (ho : (pred, o) ∈ m.2)
    (hoperand : n.incomingId m.1 o = some operand) (hr : n.Receives m own operand received) :
    received = other := by
  rcases hr with ⟨hne, rfl⟩ | ⟨-, hfind⟩
  · rcases hm.values _ ho with hown | hother
    · exact absurd (Option.some.inj (hoperand.symm.trans hown)) hne
    · exact Option.some.inj (hoperand.symm.trans hother)
  · have hne := List.find?_some hfind
    obtain ⟨e, he, hid⟩ := mem_filterMap.1 (mem_of_find?_eq_some hfind)
    rcases hm.values _ he with hown | hother
    · cases hown.symm.trans hid
      simp at hne
    · exact Option.some.inj (hid.symm.trans hother)

namespace Owned

variable {n : Names} {id : Id} {l : FunctionLayout} {e : Function} (h : Owned n id l e)
  {env : Env} {f : Frame}

include h

variable {passed : List Lir.Block}

/-- Setting the result of an instruction after the merges keeps merges settled. -/
theorem settled_setResult {b : Lir.Block} {lb : BlockLayout} {r : Option Id} {v : Option Value}
    (hin : InBlock env n l passed b lb f) (hr : ∀ i, r = some i → i ∈ results lb.tail)
    (hs : n.scope.function.StrictSSA) : Settled env n l (Env.setResult f r v).locals passed b := by
  intro c m own other hm t t' ht hx
  have hother := h.other_kept hs hin.start hm hin.walk hin.layout ht hx
  rw [BlockLayout.code, results_append, mem_append, not_or] at hother
  have hown := h.own_not_tail hin.layout hm.block hm.merge hm.result
  rw [Env.value_setResult fun heq => hown (hr _ heq),
    Env.value_setResult fun heq => hother.2 (hr _ heq)]
  exact hin.settled hs c m own other hm t t' ht hx

theorem at_setResult {c : List Instruction} {r : Option Id} {v : Option Value}
    (hat : At env n l c f) (hr : ∀ i, r = some i → i ∈ results c) :
    At env n l c (Env.setResult f r v) := by
  cases hat with
  | prologue hl hrest => exact .prologue (by simpa using hl) (by simpa using hrest)
  | block hin =>
    exact .block
      ⟨hin.start, hin.walk, hin.layout, by simpa using hin.label, by simpa using hin.rest,
      h.settled_setResult hin fun i hi => results_asRead _ ▸ hr i hi⟩
  | leaving hl hrest => exact .leaving (by simpa using hl) (by simpa using hrest)

/-- Going on to a successor keeps merges settled. -/
theorem enter_successor {p b : Lir.Block} {lp lb : BlockLayout} {frame : Frame} {d : Device.Block}
    (hin : InBlock env n l passed p lp f) (hlb : (b, lb) ∈ n.scope.function.blocks.zip l.blocks)
    (hsucc : b.id ∈ p.terminator.successors) (hlabel : d.label = lb.label)
    (hbody : d.body = lb.merges ++ lb.tail.map asRead)
    (he : env.enter f (some lp.label) d = .ok frame) :
    InBlock env n l (passed ++ [p]) b lb frame := by
  have hb : b ∈ n.scope.function.blocks := (of_mem_zip hlb).1
  have hwalk : n.scope.function.Walk (passed ++ [p]) b := .step hin.walk hb hsucc
  have hreceived := fun {m o} hm ho => h.received hin.layout hlb hbody he (m := m) (o := o) hm ho
  obtain ⟨locals, rfl, hkept, -⟩ := h.enter_block hlb hbody he
  refine ⟨hin.start, hwalk, hlb, hlabel, suffix_refl _, ?_⟩
  intro hs c m own other hm t t' ht hx
  have hother : other ∉ results lb.merges := by
    have hcode := h.other_kept hs hin.start hm hwalk hlb ht hx
    rw [BlockLayout.code, results_append, mem_append, not_or] at hcode
    exact hcode.1
  by_cases hmb : m.1 ∈ Lir.defs b.ops
  · -- the merge itself is entered: it receives the other value
    obtain rfl := hs.block_unique hb hm.block hmb (merge_mem_defs hm.merge)
    obtain ⟨o, ho⟩ := h.merge_covers hb hm.merge hin.walk.mem hsucc
    obtain ⟨own', operand, received, v, hown, hoperand, hreceives, hv, hv'⟩ := hreceived hm.merge ho
    cases hown.symm.trans hm.result
    cases hm.received ho hoperand hreceives
    rw [Env.value_congr (hkept _ hother)]
    exact hv'.trans hv.symm
  · -- another block: neither id is among its merges
    have htrace : trace (passed ++ [p]) b.ops = trace passed p.ops ++ Lir.defs b.ops := by
      simp [trace]
    rw [htrace] at ht
    obtain ⟨v, hsplit, rfl⟩ := split_left ht hmb
    have hown : own ∉ results lb.merges := by
      intro hmem
      have hcode : own ∈ results lb.code := by
        rw [BlockLayout.code, results_append]
        exact mem_append_left _ hmem
      obtain ⟨rfl, -⟩ := h.own_in_code hlb hm.block hm.merge hm.result hcode
      exact hmb (merge_mem_defs hm.merge)
    rw [Env.value_congr (hkept _ hother), Env.value_congr (hkept _ hown)]
    exact hin.settled hs c m own other hm t v hsplit fun x hmakes hmem =>
      hx x hmakes (mem_append_left _ hmem)

end Owned

end KernelForge.Codegen
