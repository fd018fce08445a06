import KernelForge.Proofs.Loading.Module

/-!
# Where frames of an emitted function stand

A frame of an emitted function runs its first block, one of its blocks, or the block void returns
lead to. Only the last instruction of a block leaves it, and it leads to a successor. So the blocks
that a frame has passed are a path of the function.
-/

namespace KernelForge.Codegen

open List
open Lir (Kind ValueId BlockId Terminator)
open Spirv
open Device.Env (isMerge)
open Instruction (asRead)

/-! ## Instructions in the middle of a block -/

variable {t : Terminator} {ms : List Merge} {c : List Instruction}

section Plain

variable {n : Names} {ids ids' : List Id} {c : List Instruction} {i : Instruction} {ls : List Line}

theorem stored_opcode {v : ValueId} {id : Id} (hi : i ∈ n.stored v id) : i.opcode = .store := by
  unfold Names.stored at hi
  split at hi
  · rw [mem_singleton.1 hi]
  · cases hi

/-- The opcode that a line gives to its instruction. -/
def Line.opcode? : Line → Option Opcode
  | .value (.instr op _ _) | .effect (.perform op _) | .effect (.define _ op _ _) => some op
  | .value (.math _ _ _) | .effect (.defineMath _ _ _ _) => some .extInst
  | _ => none

/-- The opcodes of code are those of its lines and of loads, stores and copies. -/
theorem LinesCode.opcodes {P : Opcode → Prop} (h : LinesCode n ids ls c ids')
    (hload : P .load) (hstore : P .store) (hcopy : P .copyObject)
    (hp : ∀ line ∈ ls, ∀ op ∈ line.opcode?, P op) (hi : i ∈ c) : P i.opcode := by
  induction h with
  | nil => cases hi
  | value he _ ih =>
    obtain ⟨hfirst, hp⟩ := forall_mem_cons.1 hp
    rcases mem_append.1 hi with hi | hi
    · cases he with
      | slot => rw [mem_singleton.1 hi]; exact hload
      | instr | math => rw [mem_singleton.1 hi]; exact hfirst _ rfl
      | _ => cases hi
    · exact ih hp hi
  | effect he _ ih =>
    obtain ⟨hfirst, hp⟩ := forall_mem_cons.1 hp
    rcases mem_append.1 hi with hi | hi
    · cases he with
      | perform => rw [mem_singleton.1 hi]; exact hfirst _ rfl
      | define | defineMath =>
        rcases mem_cons.1 hi with rfl | hi
        · exact hfirst _ rfl
        · rwa [stored_opcode hi]
      | copy =>
        rcases mem_cons.1 hi with rfl | hi
        · exact hcopy
        · rwa [stored_opcode hi]
      | shared => rwa [stored_opcode hi]
    · exact ih hp hi

theorem LinesCode.plain (h : LinesCode n ids ls c ids')
    (hp : ∀ line ∈ ls, line.plain = true) (hi : i ∈ c) : isStraight i.opcode = true := by
  refine h.opcodes (P := (isStraight · = true)) rfl rfl rfl (fun line hline op hop => ?_) hi
  have hplain := hp line hline
  cases line with
  | value e | effect e => cases e <;> cases hop <;> first | rfl | exact straight_of_plain hplain

theorem SelectionCode.plain {α : Type} {selection : Select α} {a : α} {uses defs : List ValueId}
    {Q : α → Prop} (h : SelectionCode n ids selection c a ids')
    (hw : selection.Writes uses defs Q) (hi : i ∈ c) : isStraight i.opcode = true := by
  obtain ⟨hr, hl⟩ := h
  obtain ⟨-, ls, hlines, -, -, hplain⟩ := hw hr
  rw [hlines] at hl
  exact hl.plain hplain hi

theorem OpsCode.plain {os : List Lir.Op} {cs : List (List Instruction)} (h : OpsCode n os cs)
    (hi : i ∈ cs.flatten) : isStraight i.opcode = true := by
  induction h with
  | nil => cases hi
  | cons ho _ ih =>
    rcases mem_append.1 (flatten_cons ▸ hi) with hi | hi
    · exact ho.plain (Select.op_writes _) hi
    · exact ih hi

variable {is stores : List Instruction} {s : Session}

theorem MergesCode.stores_plain (h : MergesCode n ms is stores) (hi : i ∈ stores)
    : isStraight i.opcode = true := by
  induction h with
  | nil => cases hi
  | cons _ _ _ ih =>
    rcases mem_append.1 hi with hi | hi
    · rw [stored_opcode hi]; rfl
    · exact ih hi

theorem MergesCode.phis (h : MergesCode n ms is stores) (hi : i ∈ is) : i.opcode = .phi := by
  induction h with
  | nil => cases hi
  | cons hm _ _ ih =>
    rcases mem_cons.1 hi with rfl | hi
    · cases hm
      rfl
    · exact ih hi

theorem EndCode.plain {last : Instruction} (h : EndCode n t c last) (hi : i ∈ c) :
    isStraight i.opcode = true := by
  cases h with
  | branch hc _ _ _ hh =>
    rcases mem_append.1 hi with hi | hi
    · exact hc.plain (Select.condition_fetches _) hi
    · cases hh with
      | none => cases hi
      | some => rw [mem_singleton.1 hi]; rfl
  | switch hc => exact hc.plain (Select.selector_fetches _) hi
  | ret _ hc => exact hc.plain (Select.operandAs_fetches _ (List.Subset.refl _)) hi
  | _ => cases hi

theorem ArraysCode.opcode {as : List Lir.ArrayDecl}
    {slots : List (Lir.ArrayId × ArraySlot)} (h : ArraysCode s as slots c) (hi : i ∈ c) :
    i.opcode = .variableDecl := by
  induction h with
  | nil => cases hi
  | cons _ _ _ ih =>
    rcases mem_cons.1 hi with rfl | hi
    · rfl
    · exact ih hi

theorem SlotsCode.opcode {values : List (ValueId × Kind)} {slots : List (ValueId × Id)}
    (h : SlotsCode s values slots c) (hi : i ∈ c) : i.opcode = .variableDecl := by
  induction h with
  | nil => cases hi
  | cons _ _ _ ih =>
    rcases mem_cons.1 hi with rfl | hi
    · rfl
    · exact ih hi

/-- The storage of a function is made by declarations. -/
theorem StorageCode.opcode {base : Table Lir.ArrayId ArraySlot} (h : StorageCode n base c)
    (hi : i ∈ c) :
    i.opcode = .variableDecl := by
  obtain ⟨arrays, slots, ca, cs, rfl, harrays, -, hslots, -⟩ := h.code
  rcases mem_append.1 hi with hi | hi
  · exact harrays.opcode hi
  · exact hslots.opcode hi

end Plain

namespace BlockLayout

/-- The instructions between the merges and the last one. -/
def middle (l : BlockLayout) : List Instruction := l.stores ++ l.ops.flatten ++ l.ending

theorem tail_eq (l : BlockLayout) : l.tail = l.middle ++ [l.last] := rfl

end BlockLayout

variable {n : Names} {b : Lir.Block} {l : BlockLayout} {i last : Instruction}

theorem BlockCode.middle_plain (h : BlockCode n b l) (hi : i ∈ l.middle) :
    isStraight i.opcode = true := by
  rcases mem_append.1 hi with hi | hi
  · rcases mem_append.1 hi with hi | hi
    · exact h.merges.stores_plain hi
    · exact h.ops.plain hi
  · exact h.ending.plain hi

theorem not_isMerge_of_plain (h : isStraight i.opcode = true) : isMerge i = false := by
  unfold isStraight at h
  unfold isMerge
  simp only [Bool.and_eq_true] at h
  simpa using h.1.2

theorem EndCode.last_not_merge (h : EndCode n t c last) : isMerge last = false := by
  cases h <;> rfl

theorem BlockCode.tail_not_merge (h : BlockCode n b l) (hi : i ∈ l.tail) : isMerge i = false := by
  rcases mem_append.1 hi with hi | hi
  · exact not_isMerge_of_plain (h.middle_plain hi)
  · rw [mem_singleton.1 hi]
    exact h.ending.last_not_merge

/-! Instructions as they are read back. -/

@[simp]
theorem results_asRead (c : List Instruction) : results (c.map asRead) = results c := by
  rw [results, filterMap_map]
  exact congrArg (List.filterMap · c) (funext Instruction.asRead_result)

theorem MergesCode.asRead {is stores : List Instruction}
    (h : MergesCode n ms is stores) : is.map asRead = is := by
  refine (map_congr_left fun i hi => ?_).trans (map_id is)
  refine Instruction.asRead_of_ne ?_
  rw [h.phis hi]
  decide

theorem EndCode.asRead (h : EndCode n t c last) : last.asRead = last := by
  cases h <;> rfl

theorem BlockCode.split_merges (h : BlockCode n b l) :
    (l.merges ++ l.tail.map asRead).takeWhile isMerge = l.merges ∧
      (l.merges ++ l.tail.map asRead).dropWhile isMerge =
        l.tail.map asRead := by
  have hmerges : ∀ i ∈ l.merges, isMerge i = true := fun i hi => by
    rw [isMerge, h.merges.phis hi]
    rfl
  have htail : (l.tail.map asRead).takeWhile isMerge = [] ∧
      (l.tail.map asRead).dropWhile isMerge = l.tail.map asRead := by
    cases hl : l.tail with
    | nil => exact ⟨rfl, rfl⟩
    | cons i =>
      have hi : isMerge i.asRead = false := by
        rw [isMerge, Instruction.asRead_opcode]
        exact h.tail_not_merge (hl ▸ mem_cons_self)
      simp [hi]
  rw [takeWhile_append_of_pos hmerges, dropWhile_append_of_pos hmerges, htail.1, htail.2,
    append_nil]
  exact ⟨rfl, rfl⟩

/-! ## Ends of blocks -/

section Ends

open Device (Env Locals Store idAt)

variable {n : Names} {env : Env} {locals : Locals} {store : Store} {target : Id}

/-- The block of the first case with a property, or the default. -/
def firstCase (p : Int64 → Bool) (cases : List (Int64 × BlockId)) (default : BlockId) : BlockId :=
  (cases.find? fun c => p c.1).elim default Prod.snd

theorem firstCase_mem (p : Int64 → Bool) (cases : List (Int64 × BlockId)) (default : BlockId) :
    firstCase p cases default ∈ cases.map Prod.snd ++ [default] := by
  unfold firstCase
  cases h : cases.find? fun c => p c.1 with
  | none => exact mem_append_right _ (mem_singleton_self _)
  | some => exact mem_append_left _ (mem_map_of_mem (mem_of_find?_eq_some h))

theorem firstCase_cons (p : Int64 → Bool) (c : Int64 × BlockId) (cases : List (Int64 × BlockId))
    (default : BlockId) :
    firstCase p (c :: cases) default = if p c.1 then c.2 else firstCase p cases default := by
  unfold firstCase
  cases h : p c.1 <;> simp [h]

/-- The word that stands for a case. -/
def caseWord (wide : Bool) (case : Int64) : Nat :=
  if wide then case.toUInt64.toNat else case.toUInt64.toNat % Nat.pow 2 32

/-- A switch leads to the block of the first case whose word has the bits of the selector, or to its
default. -/
theorem findCase_first {wide : Bool} {cases : List (Int64 × BlockId)}
    {targets : List (List Operand)}
    {default : BlockId} (h : cases.mapM (n.caseOperands wide) = some targets)
    (hd : n.symbols.labels.get? default = some target) (bits width : Nat) :
    n.symbols.labels.get?
        (firstCase (fun c => Binary.mask (caseWord wide c) width = bits) cases default) =
      some (Env.findCase bits width targets.flatten target) := by
  induction cases generalizing targets with
  | nil =>
    cases h
    exact hd
  | cons c cases ih =>
    rw [mapM_cons] at h
    obtain ⟨os, hos, h⟩ := Option.bind_eq_some_iff.1 h
    obtain ⟨rest, hrest, h⟩ := Option.bind_eq_some_iff.1 h
    cases h
    obtain ⟨id, hid, rfl⟩ := Option.map_eq_some_iff.1 hos
    have hcase :
      Env.findCase bits width (Emit.caseNumber wide c.1 :: .ref id :: rest.flatten) target =
        if Binary.mask (caseWord wide c.1) width = bits then id
        else Env.findCase bits width rest.flatten target := by
      cases wide <;> rfl
    rw [flatten_cons, cons_append, cons_append, nil_append, hcase, firstCase_cons]
    simp only [decide_eq_true_eq]
    split
    · exact hid
    · exact ih hrest

theorem switchTarget_ok (h : env.switchTarget locals i = .ok target) :
    ∃ bits width default, idAt i 1 = .ok default ∧
      target = Env.findCase bits width (i.operands.drop 2) default := by
  obtain ⟨v, -, h⟩ := except_bind_ok.1 h
  split at h
  · obtain ⟨default, hdefault, h⟩ := except_bind_ok.1 h
    cases h
    exact ⟨_, _, default, hdefault, rfl⟩
  · cases h

/-- The end of a block leads to a successor, or out of the function. -/
theorem EndCode.leads_on
    (h : EndCode n t c last) (hx : env.execute locals store last = .ok (.jump target)) :
    (∃ b ∈ t.successors, n.symbols.labels.get? b = some target) ∨
      n.scope.returnBlock = some target := by
  have hleads := Device.Env.execute_leads hx
  cases h with
  | jump hl =>
    obtain ⟨-, hid⟩ | ⟨hop, -⟩ | ⟨hop, -⟩ := hleads
    · cases hid
      exact .inl ⟨_, mem_singleton_self _, hl⟩
    · cases hop
    · cases hop
  | branch _ _ ht hf =>
    obtain ⟨hop, -⟩ | ⟨-, hid | hid⟩ | ⟨hop, -⟩ := hleads
    · cases hop
    · cases hid
      exact .inl ⟨_, mem_cons_self, ht⟩
    · cases hid
      exact .inl ⟨_, mem_cons_of_mem _ mem_cons_self, hf⟩
    · cases hop
  | switch _ _ hd hs =>
    obtain ⟨hop, -⟩ | ⟨hop, -⟩ | ⟨-, hid⟩ := hleads
    · cases hop
    · cases hop
    · obtain ⟨bits, width, other, hother, rfl⟩ := switchTarget_ok hid
      cases hother
      exact .inl ⟨_, firstCase_mem _ _ _, findCase_first hs hd bits width⟩
  | leave hr =>
    obtain ⟨-, hid⟩ | ⟨hop, -⟩ | ⟨hop, -⟩ := hleads
    · cases hid
      exact .inr hr
    · cases hop
    · cases hop
  | _ =>
    obtain ⟨hop, -⟩ | ⟨hop, -⟩ | ⟨hop, -⟩ := hleads <;> cases hop

end Ends

/-! ## Blocks ready to run -/

namespace Owned

variable {n : Names} {id : Id} {l : FunctionLayout} {e : Function} (h : Owned n id l e)
  {d : Device.Block}

include h

/-- Each block is the first one, that of one of the function's blocks, or the one void returns lead
to. -/
theorem device_block (hd : d ∈ (Device.Function.of e.asRead).blocks) :
    (d.label = l.first ∧ d.body = l.prologue.map asRead) ∨
      (∃ lb ∈ l.blocks, d.label = lb.label ∧ d.body = lb.merges ++ lb.tail.map asRead) ∨
      (n.scope.returnBlock = some d.label ∧ d.body = [⟨.returnVoid, none, none, []⟩]) := by
  obtain ⟨read, hread, rfl⟩ := mem_map.1 hd
  obtain ⟨sb, hsb, rfl⟩ := mem_map.1 hread
  rw [FunctionCode.blocks h.toFunctionCode] at hsb
  rcases mem_append.1 hsb with hsb | hsb
  · rcases mem_cons.1 hsb with rfl | hsb
    · exact .inl ⟨rfl, rfl⟩
    · obtain ⟨lb, hlb, rfl⟩ := mem_map.1 hsb
      obtain ⟨b, hb⟩ := h.blocksCode.block hlb
      refine .inr (.inl ⟨lb, hlb, rfl, ?_⟩)
      show (lb.merges ++ lb.tail).map asRead = _
      rw [map_append, (h.blocksCode.of_mem hb).merges.asRead]
  · unfold Scope.leaving at hsb
    split at hsb
    · cases hsb
    · next hr =>
      cases mem_singleton.1 hsb
      exact .inr (.inr ⟨hr, rfl⟩)

theorem device_first {ds : List Device.Block}
    (hd : (Device.Function.of e.asRead).blocks = d :: ds) :
    d.label = l.first ∧ d.body = l.prologue.map asRead := by
  unfold Device.Function.of Function.asRead at hd
  rw [FunctionCode.blocks h.toFunctionCode] at hd
  cases hd
  exact ⟨rfl, rfl⟩

/-- A name of a block leads to the code of the block. -/
theorem device_label (hd : d ∈ (Device.Function.of e.asRead).blocks) {t : BlockId}
    (ht : n.symbols.labels.get? t = some d.label) :
    ∃ b lb, (b, lb) ∈ n.scope.function.blocks.zip l.blocks ∧ b.id = t ∧ d.label = lb.label ∧
      d.body = lb.merges ++ lb.tail.map asRead := by
  obtain ⟨hfirst, hnodup⟩ := nodup_cons.1 h.labels_nodup
  obtain ⟨hblocks, -, hleaving⟩ := nodup_append.1 hnodup
  rcases h.label_cases ht with ⟨b, lb, hlb, rfl, hl⟩ | hnot
  · have hmem : lb.label ∈ l.blocks.map BlockLayout.label := mem_map.2 ⟨lb, (of_mem_zip hlb).2, rfl⟩
    rcases h.device_block hd with ⟨hd, -⟩ | ⟨lb', hlb', hd, hbody⟩ | ⟨hd, -⟩
    · exact absurd (mem_append_left _ (hd ▸ hl ▸ hmem)) hfirst
    · have hsame : lb' = lb := by
        refine eq_of_mem_flatMap (g := fun b : BlockLayout => [b.label]) (x := d.label) ?_ hlb'
          (of_mem_zip hlb).2 (mem_singleton.2 hd) (mem_singleton.2 hl.symm)
        rw [← map_eq_flatMap]
        exact hblocks
      exact ⟨b, lb, hlb, rfl, hl.symm, hsame ▸ hbody⟩
    · exact absurd hl (hleaving lb.label hmem d.label (by simp [hd]))
  · rcases h.device_block hd with ⟨hd, -⟩ | ⟨lb', hlb', hd, -⟩ | ⟨hd, -⟩
    · exact absurd (hd ▸ mem_cons_self) hnot
    · have hmem : d.label ∈ l.blocks.map BlockLayout.label := mem_map.2 ⟨lb', hlb', hd.symm⟩
      exact absurd (mem_cons_of_mem _ (mem_append_left _ hmem)) hnot
    · have hmem : d.label ∈ n.scope.returnBlock.toList := by simp [hd]
      exact absurd (mem_cons_of_mem _ (mem_append_right _ hmem)) hnot

/-- The block void returns lead to is neither the first one nor one of the function's. -/
theorem device_leaving (hd : d ∈ (Device.Function.of e.asRead).blocks)
    (hr : n.scope.returnBlock = some d.label) : d.body = [⟨.returnVoid, none, none, []⟩] := by
  obtain ⟨hfirst, hnodup⟩ := nodup_cons.1 h.labels_nodup
  have hmem : d.label ∈ n.scope.returnBlock.toList := by simp [hr]
  rcases h.device_block hd with ⟨hd, -⟩ | ⟨lb, hlb, hd, -⟩ | ⟨-, hbody⟩
  · exact absurd (mem_append_right _ (hd ▸ hmem)) hfirst
  · exact absurd hd.symm ((nodup_append.1 hnodup).2.2 lb.label (mem_map.2 ⟨lb, hlb, rfl⟩)
      d.label hmem)
  · exact hbody

/-- The instructions of the first block but the last stand in its middle. -/
theorem prologue_plain (hi : i ∈ l.storage ++ l.binding) : isStraight i.opcode = true := by
  obtain ⟨_, _, _, _, hbody⟩ := h.code
  rcases mem_append.1 hi with hi | hi
  · rw [hbody.prologue.storage.opcode hi]
    rfl
  · obtain ⟨u, ids, hr, hl⟩ := hbody.prologue.binding
    obtain ⟨ls, hlines, -, -, hplain⟩ := Select.params_ok hr
    rw [hlines] at hl
    exact hl.plain hplain hi

theorem prologue_not_merge (hi : i ∈ l.prologue) : isMerge i = false := by
  rcases mem_append.1 hi with hi | hi
  · exact not_isMerge_of_plain (h.prologue_plain hi)
  · rw [mem_singleton.1 hi]
    rfl

end Owned

end KernelForge.Codegen
