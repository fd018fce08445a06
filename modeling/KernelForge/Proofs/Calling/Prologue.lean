import KernelForge.Proofs.Calling.Binding
import KernelForge.Proofs.Execution.Reach

/-!
# The first block of a kernel

A kernel is called with a pointer to the start of the heap and the place of the parameter frame in
it. Its first block makes the storage of the call, finds the frame and defines the parameters from
its slots (`Owned.prologue_runs`).
-/

namespace KernelForge.Codegen

open List
open Host (ofSlot)
open Lir (ArrayId)
open Running (HoldsSlots)
open Spirv
open Device (Program Env Locals Store Value)
open Device.Env (Fresh)

variable {params : List Lir.Param} {param : Lir.Param} {word : Nat → Nat} {base frame : Nat}
  {locals : Locals}

/-! ## Starting the call -/

theorem find?_param (h : (params.map Lir.Param.var).Nodup) (hp : param ∈ params) :
    (params.map fun p => (p.var, p.kind)).find? (fun e => e.1 == param.var) =
      some (param.var, param.kind) := by
  induction params with
  | nil => cases hp
  | cons q params ih =>
    obtain ⟨hnew, hnodup⟩ := nodup_cons.1 h
    rcases mem_cons.1 hp with rfl | hp
    · exact List.find?_cons_of_pos (beq_self_eq_true param.var)
    · have hne : q.var ≠ param.var := fun heq =>
        hnew (heq ▸ mem_map.2 ⟨param, hp, rfl⟩)
      rw [map_cons, List.find?_cons_of_neg (by simpa using hne)]
      exact ih hnodup hp

theorem kindOf?_param {f : Lir.Function} (h : f.paramVars.Nodup)
    (hp : param ∈ f.params) : f.kindOf? param.var = some param.kind := by
  rw [Lir.Function.kindOf?, Lir.Function.values, List.find?_append, find?_param h hp]
  rfl

/-- Storage is made, the frame is found and each parameter gets the value of its slot. -/
theorem PrologueCode.runs {n : Names} {arrays : Table ArrayId ArraySlot} {entry : Lir.BlockId}
    {l : FunctionLayout} {env : Env} (hc : PrologueCode n arrays entry l)
    (hn : n.Known env.program) (hk : n.scope.function.role = .kernel)
    (hparams : n.scope.function.paramVars.Nodup)
    (hf : Storable n.scope.settings n.scope.function) {heap place byte long : Id}
    (hl : l.params.map Prod.snd = [heap, place]) (hbyte : n.session.types.get? .i8 = some byte)
    (hlong : n.session.types.get? .i64 = some long)
    (hheap : locals[heap]? = some (.pointer ⟨.heap, base, byte⟩))
    (hplace : locals[place]? = some (.int frame 64))
    (hfresh : Fresh locals (l.storage ++ l.binding))
    (hconstants : ∀ key id, n.session.constants.get? key = some id →
      locals[id]? = none ∧ id ∉ results (l.storage ++ l.binding)) {store : Store}
    (hslots : HoldsSlots store.heap (base + frame) reservedSlots n.scope.function.params.length
      word) :
    (∀ i ∈ l.binding, i.opcode ≠ .extInst) ∧ ∃ locals' store',
      env.Runs (l.storage ++ l.binding) locals store locals' store' ∧ store'.heap = store.heap ∧
      ∀ (j : Nat) param, n.scope.function.params[j]? = some param →
        ∃ x, ofSlot (word (reservedSlots + j)) param.kind = some x ∧
          n.Holds locals' store' param.var x := by
  obtain ⟨locals₁, store₁, number, hrun₁, hheap₁, hslotted⟩ :=
    hc.storage.runs hn store hf hfresh.left
  have hfresh₁ := hfresh.right hrun₁
  have hspared : ∀ {i : Id} {y : Value}, locals₁[i]? = some y → i ∉ results l.binding := by
    intro i y hy hin
    rw [hfresh₁.unset i hin] at hy
    cases hy
  have hgiven : ∀ {i : Id} {y : Value}, locals[i]? = some y →
      locals₁[i]? = some y ∧ i ∉ results l.binding := fun hy =>
    ⟨hfresh.left.keeps hrun₁ hy, hspared (hfresh.left.keeps hrun₁ hy)⟩
  obtain ⟨u, ids, ⟨hr, hlines⟩⟩ := hc.binding
  rw [hl] at hr hlines
  rw [Select.params_run, show n.view.function.role = .kernel from hk] at hr
  have htakes := Running.kernelParams_takes (R := ⟨n, env, hn, number, store.heap⟩) hlong hbyte
    hslots (fun param => kindOf?_param hparams) hparams
  obtain ⟨ls, K, rfl, -, hvars, hruns⟩ := htakes rfl hr
  replace hruns := @hruns _ _ _ [] locals₁ store₁ hlines
  rw [append_nil] at hruns
  obtain ⟨hplain, locals', store', hrun₂, hmeets⟩ := hruns <| by
    refine ⟨hfresh₁.nodup, fun key id hid => ?_, hslotted, fun v slot hv => ?_, hheap₁,
      .cons (hgiven hheap) (.cons (hgiven hplace) .nil), nofun⟩
    · obtain ⟨hnone, hout⟩ := hconstants key id hid
      rw [results_append, mem_append, not_or] at hout
      exact ⟨(hrun₁.locals_eq hout.1).trans hnone, hout.2⟩
    · obtain ⟨pointee, hpointer⟩ := hslotted.pointer v slot hv
      exact hspared hpointer
  refine ⟨hplain, locals', store', hrun₁.append hrun₂, hmeets.heap, fun j param hj => ?_⟩
  obtain ⟨x, hx, hvar⟩ := hvars j param hj
  exact ⟨x, hx, (hmeets.vars _ _ hvar).1⟩

section Kernel

variable {n : Names} {id : Id} {l : FunctionLayout} {e : Function} (h : Owned n id l e)
  {env : Env}

include h

/-- A kernel takes a pointer to bytes of the heap and a 64-bit word. -/
theorem Owned.kernel_params (hk : n.scope.function.role = .kernel) :
    ∃ byte bytePtr long heap frame, n.session.types.get? .i8 = some byte ∧
      n.session.pointers.get? (byte, StorageClass.crossWorkgroup) = some bytePtr ∧
      n.session.types.get? .i64 = some long ∧ l.params = [(bytePtr, heap), (long, frame)] := by
  have hshape := h.shape
  generalize htypes : l.params.map Prod.fst = types at hshape
  cases hshape with
  | device hr => rw [hk] at hr; cases hr
  | kernel _ hb hp hl =>
    match hparams : l.params with
    | [] | [_] => rw [hparams] at htypes; cases htypes
    | [(_, heap), (_, frame)] =>
      rw [hparams] at htypes
      cases htypes
      exact ⟨_, _, _, heap, frame, hb, hp, hl, rfl⟩
    | _ :: _ :: _ :: _ => rw [hparams] at htypes; cases htypes

/-- The parameters of a loaded function. -/
theorem Owned.device_params :
    (Device.Function.of e.asRead).params = l.params.map fun p => (p.2, p.1) := by
  show e.params.map _ = _
  rw [h.params, map_map]
  rfl

/-- A call starts with the first block, as it is. -/
theorem Owned.begins {args : List Value} (hp : env.program.functions[id]? = some (.of e.asRead))
    (hargs : args.length = l.params.length) :
    env.begin id args 0 none = .ok ⟨id, .of e.asRead,
      ((Device.Function.of e.asRead).params.zip args).foldl (fun l e => l.insert e.1.1 e.2) ∅,
      l.first, l.prologue.map Instruction.asRead, none⟩ := by
  obtain ⟨others, hblocks⟩ : ∃ others, (Device.Function.of e.asRead).blocks =
      ⟨l.first, l.prologue.map .asRead⟩ :: others := by
    unfold Device.Function.of Function.asRead
    rw [FunctionCode.blocks h.toFunctionCode]
    exact ⟨_, rfl⟩
  have hlength : args.length = (Device.Function.of e.asRead).params.length := by
    rw [h.device_params, length_map, hargs]
  have hfunction : env.program.function id = .ok (.of e.asRead) := by
    rw [Program.function, hp]
  unfold Env.begin
  rw [hfunction]
  show (if args.length ≠ (Device.Function.of e.asRead).params.length then _ else _) = _
  rw [if_neg (not_not_intro hlength)]
  simp only [hblocks]
  refine Env.enter_ok.2 ⟨[], ?_, ?_⟩
  · rw [h.prologue_unmerged.1]
    rfl
  · rw [h.prologue_unmerged.2]
    rfl

/-- The storage and binding of a kernel are read back as they are. -/
theorem Owned.prologue_asRead (hplain : ∀ i ∈ l.binding, i.opcode ≠ .extInst) :
    l.prologue.map Instruction.asRead = l.prologue := by
  obtain ⟨entry, slots, -, -, hbody⟩ := h.code
  refine asRead_eq (forall_mem_append.2 ⟨forall_mem_append.2 ⟨fun i hi => ?_, hplain⟩, ?_⟩)
  · rw [hbody.prologue.storage.opcode hi]
    nofun
  · exact forall_mem_singleton.2 nofun

/-- The code of the first block gives first values, where only the parameters have one. -/
theorem Owned.prologue_fresh
    (hlocals : ∀ i, i ∉ l.params.map Prod.snd → locals[i]? = none) :
    Fresh locals (l.storage ++ l.binding) ∧ ∀ key i, n.session.constants.get? key = some i →
      locals[i]? = none ∧ i ∉ results (l.storage ++ l.binding) := by
  have hprologue : results l.prologue = results (l.storage ++ l.binding) := by
    rw [FunctionLayout.prologue, results_append]
    exact append_nil _
  have hinner := h.results_inner
  rw [hprologue] at hinner
  have hnodup := h.nodup
  rw [hinner] at hnodup
  obtain ⟨-, hrest, hapart⟩ := nodup_append.1 (nodup_append.1 hnodup).1
  have hin : ∀ i, i ∈ l.params.map Prod.snd ++ l.first :: results (l.storage ++ l.binding) →
      i ∈ results e.inner := fun i hi => hinner ▸ mem_append_left _ hi
  refine ⟨⟨(nodup_cons.1 hrest).2, fun i hi => hlocals i fun hparam => ?_⟩, fun key i hi => ?_⟩
  · exact hapart i hparam i (mem_cons_of_mem _ hi) rfl
  · have hout := h.globals i (h.declares.constant_mem hi)
    refine ⟨hlocals i fun hparam => hout (hin i (mem_append_left _ hparam)), fun hres => ?_⟩
    exact hout (hin i (mem_append_right _ (mem_cons_of_mem _ hres)))

/-- What a kernel is called with. -/
theorem Owned.entryArgs_ok (hn : n.Known env.program) {byte bytePtr long heap place : Id}
    (hptr : n.session.pointers.get? (byte, StorageClass.crossWorkgroup) = some bytePtr)
    (hlong : n.session.types.get? .i64 = some long)
    (hl : l.params = [(bytePtr, heap), (long, place)])
    (hp : env.program.functions[id]? = some (.of e.asRead)) (base frame : Nat) :
    env.program.entryArgs id base frame = .ok [.pointer ⟨.heap, base, byte⟩, .int frame 64] := by
  have hbits : env.program.ofBits frame long = .ok (.int frame 64) := by
    unfold Program.ofBits
    rw [Program.type_of_some (hn.type hlong rfl)]
    rfl
  unfold Program.entryArgs Program.function
  rw [hp]
  dsimp only [bind, Except.bind]
  rw [h.device_params, hl]
  show ((env.program.pointee bytePtr).bind fun pointee =>
    (env.program.ofBits frame long).bind fun word => _) = _
  rw [Program.pointee_of (hn.pointer hptr), hbits]
  rfl

/-- A kernel that is called with the start of the heap and the place of a frame
runs its first block up to the way to its entry. Each parameter then has the value of its slot. -/
theorem Owned.prologue_runs (hn : n.Known env.program) (hk : n.scope.function.role = .kernel)
    (hparams : n.scope.function.paramVars.Nodup) (hf : Storable n.scope.settings n.scope.function)
    (hp : env.program.functions[id]? = some (.of e.asRead)) {store : Store}
    (hslots : HoldsSlots store.heap (base + frame) reservedSlots n.scope.function.params.length
      word) :
    ∃ args start locals' store', env.program.entryArgs id base frame = .ok args ∧
      env.begin id args 0 none = .ok start ∧
      start.rest = l.storage ++ l.binding ++ [⟨.branch, none, none, [.ref l.entry]⟩] ∧
      env.Runs (l.storage ++ l.binding) start.locals store locals' store' ∧
      store'.heap = store.heap ∧
      ∀ (j : Nat) param, n.scope.function.params[j]? = some param →
        ∃ x, ofSlot (word (reservedSlots + j)) param.kind = some x ∧
          n.Holds locals' store' param.var x := by
  obtain ⟨byte, bytePtr, long, heap, place, hbyte, hptr, hlong, hl⟩ := h.kernel_params hk
  obtain ⟨entry, groups, -, -, hbody⟩ := h.code
  have hbegin : env.begin id [.pointer ⟨.heap, base, byte⟩, .int frame 64] 0 none = .ok _ :=
    h.begins hp (by rw [hl]; rfl)
  rw [h.device_params, hl] at hbegin
  -- only the two parameters of the emitted function have values
  have hapart : heap ≠ place := by
    have hnodup := h.nodup
    rw [h.results_inner, hl] at hnodup
    have htwo := (nodup_append.1 (nodup_append.1 hnodup).1).1
    exact fun heq => (nodup_cons.1 htwo).1 (mem_singleton.2 heq)
  have hheap : (((∅ : Locals).insert heap (.pointer ⟨.heap, base, byte⟩)).insert place
      (.int frame 64))[heap]? = some (.pointer ⟨.heap, base, byte⟩) := by
    rw [Device.locals_insert_of_ne _ hapart.symm, Std.TreeMap.getElem?_insert_self]
  have hunset : ∀ i ∉ l.params.map Prod.snd, (((∅ : Locals).insert heap
      (.pointer ⟨.heap, base, byte⟩)).insert place (.int frame 64))[i]? = none := by
    intro i hi
    rw [hl, map_cons, map_cons, mem_cons, mem_cons, not_or, not_or] at hi
    rw [Device.locals_insert_of_ne _ (Ne.symm hi.2.1), Device.locals_insert_of_ne _ (Ne.symm hi.1)]
    exact Std.TreeMap.getElem?_emptyc
  obtain ⟨hfresh, hconstants⟩ := h.prologue_fresh hunset
  obtain ⟨hplain, locals', store', hrun, hkept, hholds⟩ := hbody.prologue.runs hn hk hparams hf
    (by rw [hl]; rfl) hbyte hlong hheap Std.TreeMap.getElem?_insert_self hfresh
      hconstants hslots
  rw [h.prologue_asRead hplain] at hbegin
  exact ⟨_, _, locals', store', h.entryArgs_ok hn hptr hlong hl hp base frame, hbegin, rfl, hrun,
    hkept, hholds⟩

end Kernel

end KernelForge.Codegen
