import KernelForge.Proofs.Queues.Recording

/-!
# What a flush does

A flush runs what the thread has recorded and empties its list, whether the run succeeds or stops in
the middle. A run that succeeds has taken every time it was asked for (`executeAll_taken`); no run
takes a time back, and none installs, allocates or frees (`Simulator.Running`). After a successful
run the frames that the thread has outgrown are freed.
-/

namespace KernelForge

namespace Device

/-! ## Running commands -/

theorem Simulator.nextTime_ne_zero (clock reading : Nat) : nextTime clock reading ≠ 0 := by
  unfold nextTime
  split <;> omega

/-- What running commands leaves of a device. -/
structure Simulator.Running (d d' : Simulator) : Prop where
  info : d'.info = d.info
  lists : d'.lists = d.lists
  kernels : d'.kernels = d.kernels
  lastHandle : d'.lastHandle = d.lastHandle
  heap : d.heap.SameExtent d'.heap
  stamps : d'.stamps.size = d.stamps.size
  sinks : d'.sinks.size = d.sinks.size
  taken : ∀ cell, d.stampAt cell ≠ 0 → d'.stampAt cell ≠ 0

namespace Simulator.Running

variable {d d' d'' : Simulator}

instance : Chain Simulator.Running where
  refl _ := ⟨rfl, rfl, rfl, rfl, .refl _, rfl, rfl, fun _ h => h⟩
  trans a b := ⟨b.info.trans a.info, b.lists.trans a.lists, b.kernels.trans a.kernels,
    b.lastHandle.trans a.lastHandle, a.heap.trans b.heap, b.stamps.trans a.stamps,
    b.sinks.trans a.sinks, fun cell h => b.taken cell (a.taken cell h)⟩

theorem ofHeap {heap : Heap} (h : d.heap.SameExtent heap) : d.Running { d with heap } :=
  ⟨rfl, rfl, rfl, rfl, h, rfl, rfl, fun _ h => h⟩

theorem within (h : d.Running d') {x : Command} (hx : x.Within d) : x.Within d' :=
  hx.mono (Nat.le_of_eq h.stamps.symm) (Nat.le_of_eq h.sinks.symm)

theorem orderly (h : d.Running d') {info : Info} (hd : d.Orderly info) : d'.Orderly info where
  about := h.info.trans hd.about
  keyed := h.lists ▸ hd.keyed
  handles l cs hl := h.lastHandle ▸ hd.handles l cs (h.lists ▸ hl)
  within l cs hl x hx := h.within (hd.within l cs (h.lists ▸ hl) x hx)
  handed x hx := h.lastHandle ▸ hd.handed x (h.kernels ▸ hx)

end Simulator.Running

/-- The times of a device after one more was taken. -/
theorem Simulator.stampAt_set (d : Simulator) (cell time i : Nat) :
    { d with stamps := d.stamps.setIfInBounds cell time }.stampAt i =
      if cell = i ∧ cell < d.stamps.size then time else d.stampAt i := by
  unfold stampAt
  by_cases hi : cell = i
  · subst hi
    by_cases hlt : cell < d.stamps.size
    · simp [hlt]
    · simp [hlt]
  · simp [hi]

namespace Operate

open Simulator (Running nextTime nextTime_ne_zero)

variable {d d' : Simulator}

/-- What a timestamp leaves. -/
def stamped (cell : Nat) (d : Simulator) : Simulator :=
  { d with
    clock := nextTime d.clock (d.readings.headD 0)
    readings := d.readings.tail
    stamps := d.stamps.setIfInBounds cell (nextTime d.clock (d.readings.headD 0)) }

theorem execute_stamp (cell : Nat) (d : Simulator) :
    execute (.stamp cell) d = .ok () (stamped cell d) := rfl

theorem stampAt_stamped (cell i : Nat) (d : Simulator) : (stamped cell d).stampAt i =
    if cell = i ∧ cell < d.stamps.size then nextTime d.clock (d.readings.headD 0)
    else d.stampAt i :=
  d.stampAt_set cell _ i

theorem stamp_running (cell : Nat) (d : Simulator) : d.Running (stamped cell d) := by
  refine ⟨rfl, rfl, rfl, rfl, .refl _, Array.size_setIfInBounds, rfl, fun i h => ?_⟩
  rw [stampAt_stamped]
  split
  · exact nextTime_ne_zero _ _
  · exact h

theorem execute_running (x : Command) : Along Running (execute x) :=
  execute_along (fun _ _ h => .ofHeap h)
    (fun _ _ _ => ⟨rfl, rfl, rfl, rfl, .refl _, rfl, Array.size_setIfInBounds, fun _ h => h⟩) x
    (by rintro cell rfl; exact stamp_running cell)

theorem executeAll_running (cs : List Command) : Along Running (cs.forM execute) :=
  .forM fun x _ => execute_running x

/-- A run that succeeds has taken every time it was asked for. -/
theorem executeAll_taken {cs : List Command} {cell : Nat} (h : cs.forM execute d = .ok () d')
    (hmem : .stamp cell ∈ cs) (hcell : cell < d.stamps.size) : d'.stampAt cell ≠ 0 := by
  induction cs generalizing d with
  | nil => cases hmem
  | cons x cs ih =>
    obtain ⟨_, d₁, hfirst, hrest⟩ := bind_ok.1 h
    rcases List.mem_cons.1 hmem with rfl | hmem
    · -- taken now, and no later command takes it back
      have hlater := executeAll_running cs d₁
      rw [after_of_ok hrest] at hlater
      refine hlater.taken cell ?_
      cases (execute_stamp cell d).symm.trans hfirst
      rw [stampAt_stamped, if_pos ⟨rfl, hcell⟩]
      exact nextTime_ne_zero _ _
    · have hnow := execute_running x d
      rw [after_of_ok hfirst] at hnow
      exact ih hrest hmem (hnow.stamps.symm ▸ hcell)

end Operate

/-! ## Freeing -/

/-- Heaps of which the second has no other blocks than the first, and the same bytes. -/
structure Heap.Forgets (h h' : Heap) : Prop where
  bytes : h'.bytes = h.bytes
  capacity : h'.capacity = h.capacity
  blocks : h'.blocks.entries.Sublist h.blocks.entries

theorem Heap.Forgets.refl (h : Heap) : h.Forgets h := ⟨rfl, rfl, .refl _⟩

theorem Heap.Forgets.trans {h h' h'' : Heap} (a : h.Forgets h') (b : h'.Forgets h'') :
    h.Forgets h'' :=
  ⟨b.bytes.trans a.bytes, b.capacity.trans a.capacity, b.blocks.trans a.blocks⟩

theorem Heap.free?_forgets {h h' : Heap} {a : Nat} (hf : h.free? a = some h') : h.Forgets h' := by
  unfold Heap.free? at hf
  split at hf
  · cases hf
    exact ⟨rfl, rfl, Table.drop_sublist a _⟩
  · cases hf

/-- Devices that differ in blocks that were forgotten. -/
def Simulator.Frees (d d' : Simulator) : Prop := ∃ heap, d' = { d with heap } ∧ d.heap.Forgets heap

instance : Chain Simulator.Frees where
  refl d := ⟨d.heap, rfl, .refl _⟩
  trans := by
    rintro d _ _ ⟨h, rfl, hh⟩ ⟨h', rfl, hh'⟩
    exact ⟨h', rfl, hh.trans hh'⟩

theorem Operate.free_frees (a : Nat) : Along Simulator.Frees (free a) := by
  refine Along.get fun d => ?_
  cases hf : d.heap.free? a with
  | none => exact Chain.refl d
  | some heap => exact ⟨heap, rfl, Heap.free?_forgets hf⟩

theorem Operate.free_run (a : Nat) (d : Simulator) :
    free a d = match d.heap.free? a with
      | some heap => .ok () { d with heap }
      | none => .error (.unknownBuffer a) d := by
  show (match d.heap.free? a with
    | some heap => (modify fun d : Simulator => { d with heap } : Operate Unit)
    | none => throw (Error.unknownBuffer a)) d = _
  cases d.heap.free? a with
  | some | none => rfl

/-- Blocks that are not known are all that freeing can fail on. -/
theorem Operate.freeAll_failure {l : List Nat} {d : Simulator} {e : Error}
    (h : failure (l.forM free) d = some e) : ∃ a, e = .unknownBuffer a := by
  induction l generalizing d with
  | nil => cases h
  | cons a l ih =>
    have h' : failure (free a >>= fun _ => l.forM free) d = some e := h
    have hrun := free_run a d
    cases hf : d.heap.free? a with
    | none =>
      rw [hf] at hrun
      rw [failure_bind_of_error hrun] at h'
      exact ⟨a, (Option.some.inj h').symm⟩
    | some =>
      rw [hf] at hrun
      rw [failure_bind_of_ok hrun] at h'
      exact ih h'

end Device

namespace Host

open Device (Info Simulator Command Operate Heap)

/-! ## Flushing -/

namespace Scene

variable (plan device thread : Nat)

/-- What a thread has recorded was run, to its end or until a command failed. -/
inductive Ran (s : Scene) : Option Error → Scene → Prop
  | done {d d' : Simulator} (hd : s.Shows device d)
    (hcs : ∀ x ∈ s.pending plan device thread, x.Within d)
    (hrun : (s.pending plan device thread).forM Operate.execute d = .ok () d') :
    Ran s none ((s.setDevice device d').setPending plan device thread [])
  | stopped {d d' : Simulator} {e : Error} (hd : s.Shows device d)
    (hcs : ∀ x ∈ s.pending plan device thread, x.Within d)
    (hrun : (s.pending plan device thread).forM Operate.execute d = .error e d') :
    Ran s (some e) ((s.setDevice device d').setPending plan device thread [])

/-- What a thread has recorded was run and, unless a command failed, the frames it has
outgrown were freed. -/
inductive Flushed (s : Scene) : Option Error → Scene → Prop
  | stopped {e : Error} {s' : Scene} (hran : Ran plan device thread s (some e) s') :
    Flushed s (some e) s'
  | unframed {s' : Scene} (hran : Ran plan device thread s none s')
    (hf : (s'.share plan device).frames.get? thread = none) : Flushed s none s'
  | freed {s' : Scene} {f : Frame} {heap : Heap} {r : Option Error}
    (hran : Ran plan device thread s none s')
    (hf : (s'.share plan device).frames.get? thread = some f)
    (hheap : (s'.heap device).Forgets heap) (hr : ∀ e, r = some e → ∃ a, e = .unknownBuffer a) :
    Flushed s r ((s'.setShare plan device { s'.share plan device with
      frames := (s'.share plan device).frames.insert thread { f with retired := [] } }).setHeap
        device
        heap)

variable {plan device thread} {s s' : Scene} {r : Option Error}

/-- What a run leaves, whether it ended or stopped. -/
theorem Ran.shape (h : Ran plan device thread s r s') : ∃ d, s.Shows device d ∧
    s' = (s.setDevice device (after ((s.pending plan device thread).forM Operate.execute)
      d)).setPending plan device thread [] := by
  cases h with
  | done hd _ hrun => exact ⟨_, hd, by rw [after_of_ok hrun]⟩
  | stopped hd _ hrun => exact ⟨_, hd, by rw [after_of_error hrun]⟩

/-- A run empties the list of its thread. -/
theorem Ran.pending_if (h : Ran plan device thread s r s') (p i t : Nat) :
    s'.pending p i t = if plan = p ∧ device = i ∧ thread = t then [] else s.pending p i t := by
  obtain ⟨d, -, rfl⟩ := h.shape
  rfl

theorem Flushed.pending_if (h : Flushed plan device thread s r s') (p i t : Nat) :
    s'.pending p i t = if plan = p ∧ device = i ∧ thread = t then [] else s.pending p i t := by
  cases h with
  | stopped hran | unframed hran | freed hran => exact hran.pending_if p i t

end Scene

namespace Control

variable {info : Nat → Info} {c : Context} {plan device thread : Nat} {d : Simulator}

theorem after_onDevice {α : Type} (hd : c.devices[device]? = some d) (x : Operate α) :
    after (onDevice device x) c = c.setDevice device (after x d) := by
  unfold after
  rw [onDevice_of_some hd]
  cases x d with
  | ok | error => rfl

theorem failure_onDevice {α : Type} (hd : c.devices[device]? = some d) (x : Operate α) :
    failure (onDevice device x) c = failure x d := by
  unfold failure
  rw [onDevice_of_some hd]
  cases x d with
  | ok | error => rfl

/-- Forgetting blocks on a device. -/
theorem frees_run (h : OwnLists info c) (hd : c.devices[device]? = some d)
    {α : Type} {x : Operate α}
    (hx : Along Simulator.Frees x) :
    ∃ heap, (c.scene.heap device).Forgets heap ∧ OwnLists info (after (onDevice device x) c) ∧
      (after (onDevice device x) c).scene = c.scene.setHeap device heap := by
  obtain ⟨heap, hafter, hforgets⟩ := hx d
  obtain ⟨hown, hscene⟩ := h.setHeap hd heap
  rw [after_onDevice hd, hafter]
  exact ⟨heap, (Context.scene_shows hd).heap ▸ hforgets, hown, hscene⟩

/-- Running what a thread has recorded. -/
theorem runList_run (h : OwnLists info c) {list : Nat}
    (hq : (c.queues plan).get? device thread = some list) :
    OwnLists info (after (onDevice device (Operate.flush list)) c) ∧
      Scene.Ran plan device thread c.scene (failure (onDevice device (Operate.flush list)) c)
        (after (onDevice device (Operate.flush list)) c).scene ∧
      (after (onDevice device (Operate.flush list)) c).devices.size = c.devices.size := by
  obtain ⟨d, hd, hcs⟩ := h.pending_get hq
  have horderly := h.devices device d hd
  let emptied : Simulator := { d with lists := d.lists.insert list [] }
  have hget : ∀ l, emptied.lists.get? l = if list = l then some [] else d.lists.get? l :=
    fun l => Table.get?_insert _ _ _ _
  have hflush : Operate.flush list d =
    (c.pending plan device thread).forM Operate.execute emptied := by
    have hrun := Operate.commands_run list d
    rw [hcs] at hrun
    exact bind_of_ok hrun
  have hafter : after (Operate.flush list) d =
      after ((c.pending plan device thread).forM Operate.execute) emptied := by
    unfold after
    rw [hflush]
  have hrunning := Operate.executeAll_running (c.pending plan device thread) emptied
  have hemptied : emptied.Orderly (info device) :=
    horderly.setList hcs (horderly.keyed.insert _ _) hget nofun
  have hlists : ∀ l, (after (Operate.flush list) d).lists.get? l =
      if list = l then some [] else d.lists.get? l := by
    intro l
    rw [hafter, hrunning.lists]
    exact hget l
  have hown : OwnLists info (c.setDevice device (after (Operate.flush list) d)) := by
    refine h.setDevice hd (hafter ▸ hrunning.orderly hemptied) fun l => ?_
    rw [hlists]
    split
    · next heq => rw [← heq, hcs]; rfl
    · rfl
  have hscene := h.scene_setList hq hd hlists
  have hshows : c.scene.Shows device emptied := (Context.scene_shows hd).relist _ _
  rw [after_onDevice hd, failure_onDevice hd, hscene]
  refine ⟨hown, ?_, Array.size_setIfInBounds⟩
  cases hrun : (c.pending plan device thread).forM Operate.execute emptied with
  | ok =>
    rw [failure_of_ok (hflush.trans hrun), after_of_ok (hflush.trans hrun)]
    exact .done hshows (horderly.within list _ hcs) hrun
  | error =>
    rw [failure_of_error (hflush.trans hrun), after_of_error (hflush.trans hrun)]
    exact .stopped hshows (horderly.within list _ hcs) hrun

/-- A flush of a thread on a device that exists. -/
theorem flush_run (h : OwnLists info c) (hd : c.devices[device]? = some d) (plan thread : Nat) :
    OwnLists info (after (flush plan device thread) c) ∧
      Scene.Flushed plan device thread c.scene (failure (flush plan device thread) c)
        (after (flush plan device thread) c).scene := by
  obtain ⟨list, c₁, d₁, hqueue, hown₁, hscene₁, hq, hd₁, -⟩ := queue_run h hd plan thread
  obtain ⟨hown₂, hran, hsize⟩ := runList_run hown₁ hq
  rw [hscene₁] at hran
  unfold flush
  rw [after_bind_of_ok hqueue, failure_bind_of_ok hqueue]
  cases hrun : onDevice device (Operate.flush list) c₁ with
  | error =>
    rw [after_bind_of_error hrun, failure_bind_of_error hrun]
    rw [failure_of_error hrun] at hran
    rw [after_of_error hrun] at hran hown₂
    exact ⟨hown₂, .stopped hran⟩
  | ok _ c₂ =>
    rw [after_bind_of_ok hrun, failure_bind_of_ok hrun]
    rw [failure_of_ok hrun] at hran
    rw [after_of_ok hrun] at hran hown₂ hsize
    have hget : (get : Control Context) c₂ = .ok c₂ c₂ := rfl
    rw [after_bind_of_ok hget, failure_bind_of_ok hget]
    cases hf : (c₂.share plan device).frames.get? thread with
    | none => exact ⟨hown₂, .unframed hran hf⟩
    | some f =>
      let c₃ := c₂.setShare plan device { c₂.share plan device with
        frames := (c₂.share plan device).frames.insert thread { f with retired := [] } }
      have hlt : device < c₂.devices.size := hsize ▸ (Array.getElem?_eq_some_iff.1 hd₁).1
      have hd₃ : c₃.devices[device]? = some c₂.devices[device] := Array.getElem?_eq_getElem hlt
      obtain ⟨heap, hforgets, hown, hscene⟩ := frees_run (c := c₃) (hown₂.setShare _ _ _) hd₃
        (.forM fun a _ => Operate.free_frees a : Along _ (f.retired.forM Operate.free))
      refine ⟨hown, ?_⟩
      show Scene.Flushed plan device thread c.scene _
        (after (onDevice device (f.retired.forM Operate.free)) c₃).scene
      rw [hscene, Context.scene_setShare]
      refine .freed hran hf hforgets fun e he => ?_
      have hfree : failure (onDevice device (f.retired.forM Operate.free)) c₃ = some e := he
      rw [failure_onDevice hd₃] at hfree
      exact Operate.freeAll_failure hfree

end Control

end Host

end KernelForge
