import KernelForge.Device.Machine
import KernelForge.Proofs.General

/-!
# What one step of the machine can do

A step goes on to the next instruction, enters a block, begins a call or returns (`Env.Step`). A
merge reads all its values before any is set. Later modules reason about these four cases and never
open `Env.step`.
-/

namespace KernelForge.Device

open List
open Spirv (Id Instruction)

namespace Env

variable {env : Env}

/-! ## Values -/

variable {locals : Locals} {id : Id} {v : Value}

theorem value_of_get (h : locals[id]? = some v) : env.value locals id = .ok v := by
  rw [value, h]

theorem value_congr {locals' : Locals} (h : locals'[id]? = locals[id]?) :
    env.value locals' id = env.value locals id := by
  rw [value, value, h]

theorem value_insert_of_ne {id' : Id} (h : id' ≠ id) :
    env.value (locals.insert id' v) id = env.value locals id := by
  refine value_congr ?_
  rw [Std.TreeMap.getElem?_insert, if_neg (by simpa using h)]

variable {merged : List (Id × Value)}

theorem setAll_other (h : id ∉ merged.map Prod.fst) :
    (merged.foldl (fun (l : Locals) e => l.insert e.1 e.2) locals)[id]? = locals[id]? := by
  induction merged generalizing locals with
  | nil => rfl
  | cons e merged ih =>
    obtain ⟨hne, hrest⟩ : id ≠ e.1 ∧ id ∉ merged.map Prod.fst := by
      simpa [mem_cons, not_or] using h
    rw [foldl_cons, ih hrest, Std.TreeMap.getElem?_insert, if_neg (by simpa using Ne.symm hne)]

/-- Values set together at distinct ids are all there. -/
theorem setAll_self (hnodup : (merged.map Prod.fst).Nodup) (h : (id, v) ∈ merged) :
    (merged.foldl (fun (l : Locals) e => l.insert e.1 e.2) locals)[id]? = some v := by
  induction merged generalizing locals with
  | nil => cases h
  | cons e merged ih =>
    obtain ⟨hnew, hnodup⟩ := nodup_cons.1 hnodup
    rw [foldl_cons]
    rcases mem_cons.1 h with rfl | h
    · rw [setAll_other hnew, Std.TreeMap.getElem?_insert_self]
    · exact ih hnodup h

/-! ## Steps -/

/-- What one step of the machine can do. -/
inductive Step (env : Env) (s : State) (i : Instruction) (rest : List Instruction) :
    State ⊕ Store → Prop
  | next {v : Option Value} {store : Store}
      (h : env.execute s.frame.locals s.store i = .ok (.next v store)) :
      Step env s i rest (.inl ⟨setResult { s.frame with rest } i.result v, s.callers, store⟩)
  | jump {label : Id} {b : Block} {frame : Frame}
      (h : env.execute s.frame.locals s.store i = .ok (.jump label))
      (hb : findBlock s.frame.code label = some b)
      (he : env.enter s.frame (some s.frame.label) b = .ok frame) :
      Step env s i rest (.inl { s with frame })
  | call {callee : Id} {args : List Value} {frame : Frame}
      (h : env.execute s.frame.locals s.store i = .ok (.call callee args))
      (hb : env.begin callee args (s.callers.length + 1) i.result = .ok frame) :
      Step env s i rest (.inl ⟨frame, { s.frame with rest } :: s.callers, s.store⟩)
  | ret {v : Option Value} {caller : Frame} {callers : List Frame}
      (h : env.execute s.frame.locals s.store i = .ok (.ret v))
      (hc : s.callers = caller :: callers) :
      Step env s i rest (.inl ⟨setResult caller s.frame.result v, callers, s.store⟩)
  | done {v : Option Value} (h : env.execute s.frame.locals s.store i = .ok (.ret v))
      (hc : s.callers = []) : Step env s i rest (.inr s.store)

variable {i : Instruction} {rest : List Instruction}

theorem step_ok {s : State} {r : State ⊕ Store} (h : env.step s i rest = .ok r) :
    Step env s i rest r := by
  obtain ⟨flow, hflow, h⟩ := except_bind_ok.1 h
  cases flow with
  | next =>
    cases h
    exact .next hflow
  | jump label =>
    cases hb : findBlock s.frame.code label with
    | none =>
      simp only [hb] at h
      cases h
    | some =>
      simp only [hb] at h
      obtain ⟨frame, he, h⟩ := except_bind_ok.1 h
      cases h
      exact .jump hflow hb he
  | call =>
    obtain ⟨frame, hb, h⟩ := except_bind_ok.1 h
    cases h
    exact .call hflow hb
  | ret =>
    cases hc : s.callers with
    | nil =>
      simp only [hc] at h
      cases h
      exact .done hflow hc
    | cons =>
      simp only [hc] at h
      cases h
      exact .ret hflow hc

/-- A jump enters the block with the label it leads to. -/
theorem step_jump {s s' : State} {target : Id}
    (hx : env.execute s.frame.locals s.store i = .ok (.jump target))
    (h : env.step s i rest = .ok (.inl s')) :
    ∃ b, findBlock s.frame.code target = some b ∧
      env.enter s.frame (some s.frame.label) b = .ok s'.frame := by
  generalize hr : (Sum.inl s' : State ⊕ Store) = r at h
  cases step_ok h with
  | jump hx' hb he =>
    cases hr
    cases hx.symm.trans hx'
    exact ⟨_, hb, he⟩
  | next hx' | call hx' | ret hx' => cases hx.symm.trans hx'
  | done => cases hr

/-- The states of work-items in progress. -/
inductive Reaches (env : Env) : State → Prop
  | start {entry : Id} {args : List Value} {frame : Frame} {store : Store}
      (h : env.begin entry args 0 none = .ok frame) : Reaches env ⟨frame, [], store⟩
  | step {s s' : State} {i : Instruction} {rest : List Instruction} (h : Reaches env s)
      (hi : s.frame.rest = i :: rest) (hs : env.step s i rest = .ok (.inl s')) : Reaches env s'

@[simp]
theorem setResult_function (f : Frame) (r : Option Id) (v : Option Value) :
    (setResult f r v).function = f.function := by
  cases v <;> cases r <;> rfl

@[simp]
theorem setResult_code (f : Frame) (r : Option Id) (v : Option Value) :
    (setResult f r v).code = f.code := by
  cases v <;> cases r <;> rfl

@[simp]
theorem setResult_label (f : Frame) (r : Option Id) (v : Option Value) :
    (setResult f r v).label = f.label := by
  cases v <;> cases r <;> rfl

@[simp]
theorem setResult_rest (f : Frame) (r : Option Id) (v : Option Value) :
    (setResult f r v).rest = f.rest := by
  cases v <;> cases r <;> rfl

@[simp]
theorem setResult_result (f : Frame) (r : Option Id) (v : Option Value) :
    (setResult f r v).result = f.result := by
  cases v <;> cases r <;> rfl

variable {f frame : Frame}

/-- Values at ids other than the result stay. -/
theorem value_setResult {r : Option Id} {v : Option Value} (h : r ≠ some id) :
    env.value (setResult f r v).locals id = env.value f.locals id := by
  cases v with
  | none => rfl
  | some =>
    cases r with
    | none => rfl
    | some => exact value_insert_of_ne fun heq => h (congrArg some heq)

/-! ## Entering blocks -/

def isMerge (i : Instruction) : Bool := i.opcode == .phi

variable {previous : Option Id}

theorem enter_ok {b : Block} :
    env.enter f previous b = .ok frame ↔
      ∃ merged, (b.body.takeWhile isMerge).mapM (env.merge f.locals previous) = .ok merged ∧
        frame = { f with
          locals := merged.foldl (fun l e => l.insert e.1 e.2) f.locals
          label := b.label
          rest := b.body.dropWhile isMerge } := by
  constructor
  · intro h
    obtain ⟨merged, hm, h⟩ := except_bind_ok.1 h
    cases h
    exact ⟨merged, hm, rfl⟩
  · rintro ⟨merged, hm, rfl⟩
    exact except_bind_ok.2 ⟨merged, hm, rfl⟩

theorem merge_ok {e : Id × Value} (h : env.merge locals previous i = .ok e) :
    ∃ label id, previous = some label ∧ incoming label i.operands = some id ∧
      i.result = some e.1 ∧ env.value locals id = .ok e.2 := by
  unfold merge at h
  cases previous with
  | none => cases h
  | some label =>
    cases hid : incoming label i.operands with
    | none =>
      simp only [hid] at h
      cases h
    | some id =>
      simp only [hid] at h
      obtain ⟨r, hr, h⟩ := except_bind_ok.1 h
      obtain ⟨v, hv, h⟩ := except_bind_ok.1 h
      cases h
      refine ⟨label, id, rfl, hid, ?_, hv⟩
      unfold resultOf at hr
      cases hi : i.result with
      | none =>
        rw [hi] at hr
        cases hr
      | some =>
        rw [hi] at hr
        cases hr
        rfl

theorem begin_ok {callee : Id} {args : List Value} {depth : Nat} {result : Option Id}
    (h : env.begin callee args depth result = .ok frame) :
    ∃ code b blocks, env.program.functions[callee]? = some code ∧ code.blocks = b :: blocks ∧
      env.enter ⟨callee, code, (code.params.zip args).foldl (fun l e => l.insert e.1.1 e.2) ∅,
        b.label, [], result⟩ none b = .ok frame := by
  unfold begin at h
  split at h
  · cases h
  · obtain ⟨code, hcode, h⟩ := except_bind_ok.1 h
    have hfound : env.program.functions[callee]? = some code := by
      unfold Program.function at hcode
      cases hf : env.program.functions[callee]? with
      | none =>
        simp only [hf] at hcode
        cases hcode
      | some =>
        simp only [hf] at hcode
        cases hcode
        rfl
    dsimp only at h
    split at h
    · cases h
    · cases hblocks : code.blocks with
      | nil =>
        simp only [hblocks] at h
        cases h
      | cons b blocks =>
        simp only [hblocks] at h
        exact ⟨code, b, blocks, hfound, hblocks, h⟩

theorem findBlock_ok {f : Function} {label : Id} {b : Block} (h : findBlock f label = some b) :
    b ∈ f.blocks ∧ b.label = label := by
  have hfold : ∀ (bs : List Block) (found : Option Block),
      bs.foldl (fun found b => if b.label == label then some b else found) found = some b →
      (b ∈ bs ∧ b.label = label) ∨ found = some b := by
    intro bs
    induction bs with
    | nil => exact fun _ h => .inr h
    | cons b' bs ih =>
      intro found h
      rcases ih _ h with ⟨hmem, hl⟩ | h
      · exact .inl ⟨mem_cons_of_mem _ hmem, hl⟩
      · dsimp only at h
        split at h
        · next heq =>
          cases h
          exact .inl ⟨mem_cons_self, by simpa using heq⟩
        · exact .inr h
  rcases hfold f.blocks none h with h | h
  · exact h
  · cases h

/-! ## Instructions -/

/-- What an instruction does: only a write changes the heap, only the end of a block leaves it, and
only a call begins a function. -/
def Leads (env : Env) (locals : Locals) (store : Store) (i : Instruction) : Flow → Prop
  | .next _ s => s.heap = store.heap ∨ ∃ p data, store.write p data = .ok s
  | .call _ _ => i.opcode = .functionCall
  | .ret _ => i.opcode = .returnVoid ∨ i.opcode = .returnValue
  | .jump label => (i.opcode = .branch ∧ idAt i 0 = .ok label) ∨
      (i.opcode = .branchConditional ∧ (idAt i 1 = .ok label ∨ idAt i 2 = .ok label)) ∨
      (i.opcode = .switch ∧ env.switchTarget locals i = .ok label)

variable {store : Store} {flow : Flow}

theorem extended_leads (h : env.extended locals store i = .ok flow) :
    env.Leads locals store i flow := by
  obtain ⟨_, _, h⟩ := except_bind_ok.1 h
  dsimp only at h
  split at h
  · cases h
  · split at h
    · cases h
    · repeat obtain ⟨_, _, h⟩ := except_bind_ok.1 h
      cases h
      exact .inl rfl
    · repeat obtain ⟨_, hlast, h⟩ := except_bind_ok.1 h
      cases h
      exact .inr ⟨_, _, hlast⟩
    · repeat obtain ⟨_, _, h⟩ := except_bind_ok.1 h
      cases h
      exact .inl rfl

theorem execute_leads (h : env.execute locals store i = .ok flow) :
    env.Leads locals store i flow := by
  unfold execute at h
  split at h
  case h_6 hop =>
    obtain ⟨label, hlabel, h⟩ := except_bind_ok.1 h
    cases h
    exact .inl ⟨hop, hlabel⟩
  case h_7 hop =>
    obtain ⟨_, _, h⟩ := except_bind_ok.1 h
    obtain ⟨taken, _, h⟩ := except_bind_ok.1 h
    obtain ⟨label, hlabel, h⟩ := except_bind_ok.1 h
    cases h
    refine .inr (.inl ⟨hop, ?_⟩)
    cases taken with
    | true => exact .inl hlabel
    | false => exact .inr hlabel
  case h_8 hop =>
    obtain ⟨label, hlabel, h⟩ := except_bind_ok.1 h
    cases h
    exact .inr (.inr ⟨hop, hlabel⟩)
  case h_9 hop =>
    cases h
    exact .inl hop
  case h_10 hop =>
    obtain ⟨v, _, h⟩ := except_bind_ok.1 h
    cases h
    exact .inr hop
  case h_13 =>
    repeat obtain ⟨_, hlast, h⟩ := except_bind_ok.1 h
    cases h
    exact .inr ⟨_, _, hlast⟩
  case h_26 =>
    obtain ⟨_, _, h⟩ := except_bind_ok.1 h
    obtain ⟨_, _, h⟩ := except_bind_ok.1 h
    obtain ⟨_, _, h⟩ := except_bind_ok.1 h
    split at h
    · split at h
      · cases h
        exact .inl rfl
      · cases h
    · cases h
  case h_27 hop =>
    obtain ⟨_, _, h⟩ := except_bind_ok.1 h
    obtain ⟨_, _, h⟩ := except_bind_ok.1 h
    cases h
    exact hop
  case h_28 => exact extended_leads h
  -- all others go on, after reading some operands
  all_goals
    repeat obtain ⟨_, _, h⟩ := except_bind_ok.1 h
    cases h <;> exact .inl rfl

end Env

end KernelForge.Device
