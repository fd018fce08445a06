import KernelForge.Proofs.Execution.Merges

/-!
# Where work-items in progress stand

In every state that a work-item reaches, each open call of an emitted function stands at a place of
the function's code: the path that led there is one of the function, and merges that name themselves
are settled (`Owned.reaches_placed`). A call leaves its caller where it stands, and the result it
returns is the result of an instruction there.
-/

namespace KernelForge.Codegen

open List
open Lir (BlockId)
open Spirv
open Device (Env Frame State Store Value)
open Instruction (asRead)

/-! ## Leaving a block -/

variable {store : Store} {target : Id} {c : List Instruction} {locals : Device.Locals}
  {i : Instruction}
  {args : List Value} {result : Option Id}

theorem mem_results {id : Id} (hi : i ∈ c)
    (hr : i.result = some id) : id ∈ results c :=
  mem_filterMap.2 ⟨i, hi, hr⟩

/-- An instruction in the middle of a block does not lead elsewhere. -/
theorem not_jump_of_plain {env : Env} (hp : isStraight i.opcode = true) :
    env.execute locals store i ≠ .ok (.jump target) := by
  intro hx
  have hterminator : i.opcode.isTerminator = false := by
    simp only [isStraight, Bool.and_eq_true, Bool.not_eq_true'] at hp
    exact hp.2
  rcases Env.execute_leads hx with ⟨hop, -⟩ | ⟨hop, -⟩ | ⟨hop, -⟩ <;>
  · rw [hop] at hterminator
    cases hterminator

/-- What leaves the code of a block is its last instruction. -/
theorem last_of_jump {env : Env} {i last : Instruction}
    (hplain : ∀ i ∈ c, isStraight i.opcode = true)
    (hlast : last.asRead = last) (hi : i ∈ (c ++ [last]).map asRead)
    (hx : env.execute locals store i = .ok (.jump target)) : i = last := by
  obtain ⟨i', hi', rfl⟩ := mem_map.1 hi
  rcases mem_append.1 hi' with hi | hi
  · refine absurd hx (not_jump_of_plain ?_)
    rw [Instruction.asRead_opcode]
    exact hplain i' hi
  · rw [mem_singleton.1 hi, hlast]

/-- The first block is no block that a merge names. -/
theorem MergeCode.no_incoming {n : Names} {m : Merge} (h : MergeCode n m i)
    {label : Id} (hl : ∀ block, n.symbols.labels.get? block ≠ some label) :
    Env.incoming label i.operands = none := by
  cases h with
  | @intro k type own pairs operands _ _ _ hp hops =>
    obtain ⟨other, -, rfl⟩ := Option.map_eq_some_iff.1 hops
    refine (incoming_pairs label (fun id => if id = own then other.1 else id) pairs).trans ?_
    rw [Option.map_eq_none_iff, List.find?_eq_none]
    intro p hmem hlabel
    obtain ⟨e, -, hpair⟩ := (mergePairs_mem hp).1 p hmem
    exact hl e.1 ((Names.mergePair_iff.1 hpair).2.trans (congrArg some (beq_iff_eq.1 hlabel)))

namespace Owned

variable {n : Names} {id : Id} {l : FunctionLayout} {e : Function} (h : Owned n id l e)
  {env : Env} {f frame : Frame} {d : Device.Block}

include h

theorem first_no_label (block : BlockId) : n.symbols.labels.get? block ≠ some l.first := by
  intro hl
  obtain ⟨hfirst, -⟩ := nodup_cons.1 h.labels_nodup
  rcases h.label_cases hl with ⟨b, lb, hlb, -, heq⟩ | hnot
  · exact hfirst (mem_append_left _ (mem_map.2 ⟨lb, (of_mem_zip hlb).2, heq⟩))
  · exact hnot mem_cons_self

/-- An entry that can be entered has no merges. -/
theorem entry_unmerged {b : Lir.Block} {lb : BlockLayout}
    (hlb : (b, lb) ∈ n.scope.function.blocks.zip l.blocks)
    (hbody : d.body = lb.merges ++ lb.tail.map asRead)
    (he : env.enter f (some l.first) d = .ok frame) : leadingMerges b.ops = [] := by
  obtain ⟨locals, -, -, hset⟩ := h.enter_block hlb hbody he
  cases hm : leadingMerges b.ops with
  | nil => rfl
  | cons =>
    obtain ⟨i, hzip, hi⟩ := (h.blocksCode.of_mem hlb).merges.of_mem (hm ▸ mem_cons_self)
    obtain ⟨label, id, _, _, hlabel, hid, -⟩ := hset i (of_mem_zip hzip).2
    cases hlabel
    rw [hi.no_incoming h.first_no_label] at hid
    cases hid

/-- From the first block control goes to the entry. -/
theorem enter_entry (hi : i ∈ l.prologue.map asRead)
    (hx : env.execute f.locals store i = .ok (.jump target))
    (hd : Env.findBlock (.of e.asRead) target = some d)
    (he : env.enter f (some l.first) d = .ok frame) :
    ∃ b lb, InBlock env n l [] b lb frame := by
  obtain rfl := last_of_jump (fun i => h.prologue_plain) rfl hi hx
  obtain ⟨hmem, hlabel⟩ := Env.findBlock_ok hd
  obtain ⟨-, hid⟩ | ⟨hop, -⟩ | ⟨hop, -⟩ := Env.execute_leads hx
  · cases hid
    obtain ⟨entry, _, hentry, -, hbody⟩ := h.code
    obtain ⟨b, lb, hlb, hb, hl, hcode⟩ :=
      h.device_label hmem (hbody.prologue.entry.trans (congrArg some hlabel.symm))
    obtain ⟨b₀, hhead, hb₀⟩ := Option.map_eq_some_iff.1 hentry
    -- the block with the label of the entry is the first one
    obtain ⟨lb₀, hlb₀⟩ := h.blocksCode.layout (mem_of_mem_head? hhead)
    have hlabel₀ := (h.blocksCode.of_mem hlb₀).label
    rw [hb₀, ← hb, (h.blocksCode.of_mem hlb).label] at hlabel₀
    obtain ⟨rfl, -⟩ := h.layout_unique hlb hlb₀ (Option.some.inj hlabel₀)
    have hnone := h.entry_unmerged hlb hcode he
    obtain ⟨locals, rfl, -, -⟩ := h.enter_block hlb hcode he
    refine ⟨b, lb, fun b' hb' => ?_, .start hhead, hlb, hl, suffix_refl _, ?_⟩
    · rw [hhead] at hb'
      cases hb'
      exact hnone
    · intro hs c m own other hm t t' ht
      have hdef : m.1 ∈ Lir.defs b.ops := by
        have hmem : m.1 ∈ Lir.Function.trace [] b.ops := by simp [ht]
        exact hmem
      obtain rfl := hs.block_unique (mem_of_mem_head? hhead) hm.block hdef (merge_mem_defs hm.merge)
      have hmerge := hm.merge
      rw [hnone] at hmerge
      cases hmerge
  · cases hop
  · cases hop

/-- A jump leads from a place of the code to a place of the code. -/
theorem at_jump {rest : List Instruction} (hat : At env n l c f)
    (hi : f.rest = i :: rest)
    (hx : env.execute f.locals store i = .ok (.jump target))
    (hd : Env.findBlock (.of e.asRead) target = some d)
    (he : env.enter f (some f.label) d = .ok frame) : ∃ c, At env n l c frame := by
  have hmem := hat.mem hi
  cases hat with
  | prologue hl =>
    rw [hl] at he
    obtain ⟨b, lb, hin⟩ := h.enter_entry hmem hx hd he
    exact ⟨_, .block hin⟩
  | @block passed p lp _ hin =>
    have hcode := h.blocksCode.of_mem hin.layout
    obtain rfl := last_of_jump (fun i => hcode.middle_plain) hcode.ending.asRead hmem hx
    obtain ⟨hblock, hlabel⟩ := Env.findBlock_ok hd
    rw [hin.label] at he
    rcases hcode.ending.leads_on hx with ⟨t, ht, hl⟩ | hreturn
    · obtain ⟨b, lb, hlb, rfl, hl', hbody⟩ :=
        h.device_label hblock (hl.trans (congrArg some hlabel.symm))
      exact ⟨_, .block (h.enter_successor hin hlb ht hl' hbody he)⟩
    · have hbody := h.device_leaving hblock (hreturn.trans (congrArg some hlabel.symm))
      obtain ⟨merged, -, rfl⟩ := Env.enter_ok.1 he
      rw [hbody]
      exact ⟨_, .leaving (hreturn.trans (congrArg some hlabel.symm)) (suffix_refl _)⟩
  | leaving =>
    rw [mem_singleton.1 hmem] at hx
    rcases Env.execute_leads hx with ⟨hop, -⟩ | ⟨hop, -⟩ | ⟨hop, -⟩ <;> cases hop

/-- The first block of a function has no merges. -/
theorem prologue_unmerged :
    (l.prologue.map asRead).takeWhile Env.isMerge = [] ∧
      (l.prologue.map asRead).dropWhile Env.isMerge = l.prologue.map asRead := by
  cases hl : l.prologue with
  | nil => exact ⟨rfl, rfl⟩
  | cons i =>
    have hi : ¬Env.isMerge i.asRead = true := by
      rw [Env.isMerge, Instruction.asRead_opcode, Bool.not_eq_true]
      exact h.prologue_not_merge (hl ▸ mem_cons_self)
    rw [map_cons, takeWhile_cons_of_neg hi, dropWhile_cons_of_neg hi]
    exact ⟨rfl, rfl⟩

/-- A call starts in the first block. -/
theorem at_begin {depth : Nat} (hp : env.program.functions[id]? = some (.of e.asRead))
    (hb : env.begin id args depth result = .ok frame) :
    frame.code = .of e.asRead ∧ At env n l (l.prologue.map asRead) frame := by
  obtain ⟨code, b, blocks, hcode, hblocks, he⟩ := Env.begin_ok hb
  rw [hp] at hcode
  cases hcode
  obtain ⟨hlabel, hbody⟩ := h.device_first hblocks
  obtain ⟨merged, -, rfl⟩ := Env.enter_ok.1 he
  have hrest : b.body.dropWhile Env.isMerge = l.prologue.map asRead := by
    rw [hbody, h.prologue_unmerged.2]
  exact ⟨rfl, .prologue hlabel (hrest ▸ suffix_refl _)⟩

end Owned

/-! ## Open calls -/

section Calls

variable (env : Env) (n : Names) (id : Id) (l : FunctionLayout) (e : Function)

/-- A call, if it is one of the function, stands at a place of its code; what it waits
for is the result of an instruction there. -/
def Placed (awaits : Option Id) (f : Frame) : Prop :=
  f.function = id → f.code = .of e.asRead ∧
    ∃ c, At env n l c f ∧ ∀ i, awaits = some i → i ∈ results c

/-- The calls that wait for a result, the innermost first. -/
def Waiting : Option Id → List Frame → Prop
  | _, [] => True
  | result, caller :: callers =>
    Placed env n id l e result caller ∧ Waiting caller.result callers

/-- All open calls of a work-item stand at places of the code. -/
def AllPlaced (s : State) : Prop :=
  Placed env n id l e none s.frame ∧ Waiting env n id l e s.frame.result s.callers

end Calls

namespace Owned

variable {n : Names} {id : Id} {l : FunctionLayout} {e : Function} (h : Owned n id l e)
  {env : Env} {s s' : State} {rest : List Instruction}

include h

variable (hp : env.program.functions[id]? = some (.of e.asRead))

include hp

theorem begin_placed {callee : Id} {depth : Nat} {frame : Frame}
    (hb : env.begin callee args depth result = .ok frame) :
    Placed env n id l e none frame ∧ frame.result = result := by
  obtain ⟨code, b, blocks, -, -, he⟩ := Env.begin_ok hb
  obtain ⟨merged, -, hframe⟩ := Env.enter_ok.1 he
  refine ⟨fun hf => ?_, by rw [hframe]⟩
  obtain rfl : callee = id := by rw [← hf, hframe]
  obtain ⟨hcode, hat⟩ := h.at_begin hp hb
  exact ⟨hcode, _, hat, nofun⟩

/-- A step keeps all calls at places of the code. -/
theorem step_placed (hs : AllPlaced env n id l e s) (hi : s.frame.rest = i :: rest)
    (hstep : Env.Step env s i rest (.inl s')) : AllPlaced env n id l e s' := by
  obtain ⟨hframe, hcallers⟩ := hs
  generalize hr : (.inl s' : State ⊕ Store) = r at hstep
  cases hstep with
  | next =>
    cases hr
    refine ⟨fun hf => ?_, by rwa [Env.setResult_result]⟩
    rw [Env.setResult_function] at hf
    obtain ⟨hcode, c, hat, -⟩ := hframe hf
    refine ⟨by rwa [Env.setResult_code], c, ?_, nofun⟩
    exact h.at_setResult (hat.next hi) fun _ => mem_results (hat.mem hi)
  | jump hx hb he =>
    cases hr
    obtain ⟨merged, -, heq⟩ := Env.enter_ok.1 he
    refine ⟨fun hf => ?_, by rwa [heq]⟩
    rw [heq] at hf
    obtain ⟨hcode, c, hat, -⟩ := hframe hf
    rw [hcode] at hb
    obtain ⟨c', hat'⟩ := h.at_jump hat hi hx hb he
    exact ⟨by rwa [heq], c', hat', nofun⟩
  | call hx hb =>
    cases hr
    obtain ⟨hplaced, hresult⟩ := h.begin_placed hp hb
    refine ⟨hplaced, fun hf => ?_, hcallers⟩
    obtain ⟨hcode, c, hat, -⟩ := hframe hf
    refine ⟨hcode, c, hat.next hi, fun r hr => ?_⟩
    rw [hresult] at hr
    exact mem_results (hat.mem hi) hr
  | @ret v caller callers hx hc =>
    cases hr
    rw [hc] at hcallers
    obtain ⟨hcaller, hcallers⟩ := hcallers
    refine ⟨fun hf => ?_, by rwa [Env.setResult_result]⟩
    rw [Env.setResult_function] at hf
    obtain ⟨hcode, c, hat, hresult⟩ := hcaller hf
    exact ⟨by rwa [Env.setResult_code], c, h.at_setResult hat hresult, nofun⟩
  | done => cases hr

/-- So they stand in every state that a work-item reaches. -/
theorem reaches_placed (hr : env.Reaches s) : AllPlaced env n id l e s := by
  induction hr with
  | start hb => exact ⟨(h.begin_placed hp hb).1, trivial⟩
  | step _ hi hs ih => exact h.step_placed hp ih hi (Env.step_ok hs)

end Owned

end KernelForge.Codegen
