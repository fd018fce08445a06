import KernelForge.Proofs.Queues.Lists
import KernelForge.Proofs.Windows

/-!
# What is recorded

Work is put at the end of what its thread has recorded, between the two timestamps of its event.
-/

namespace KernelForge

open private Nat.nextPowerOfTwo.go from Init.Data.Nat.Power2.Basic

theorem le_nextPowerOfTwo (n : Nat) : n ≤ n.nextPowerOfTwo := by
  have hgo : ∀ power (h : power > 0), n ≤ Nat.nextPowerOfTwo.go n power h := by
    intro power h
    fun_induction Nat.nextPowerOfTwo.go n power h with
    | case1 power h hlt ih => exact ih
    | case2 power h hge => exact Nat.le_of_not_lt hge
  exact hgo 1 (by decide)

namespace Host

open List hiding get
open Device (Info Simulator Command Operate Heap heapBase)
open Device.Operate (record)

variable {info : Nat → Info} {c : Context} {plan device thread : Nat} {d d' : Simulator}

/-- A device on which nothing that can be seen has changed, with as many cells as before or more. -/
theorem OwnLists.unseen (h : OwnLists info c) (hd : c.devices[device]? = some d) (hs : d.Steady d')
    (hheap : d'.heap = d.heap) (hkernels : d'.kernels = d.kernels) :
    OwnLists info (c.setDevice device d') ∧ (c.setDevice device d').scene = c.scene := by
  have hshows := Context.scene_shows hd
  refine ⟨h.steady hd hs, Context.scene_setDevice_same hd hs.lists ⟨?_, ?_, ?_, ?_, ?_⟩⟩
  · exact hshows.heap.trans hheap.symm
  · exact hshows.kernels.trans hkernels.symm
  · exact hshows.stampAt.trans hs.stampAt.symm
  · exact hshows.clock.trans hs.clock.symm
  · exact hshows.sinks.trans hs.sinks.symm

/-- A device on which only the memory has changed. -/
theorem OwnLists.setHeap (h : OwnLists info c) (hd : c.devices[device]? = some d) (heap : Heap) :
    OwnLists info (c.setDevice device { d with heap }) ∧
      (c.setDevice device { d with heap }).scene = c.scene.setHeap device heap := by
  have hshows := Context.scene_shows hd
  have hsteady : d.Steady { d with heap } :=
    ⟨rfl, rfl, rfl, rfl, rfl, Nat.le_refl _, Nat.le_refl _, id⟩
  refine ⟨h.steady hd hsteady, ?_⟩
  have hshows' : (c.scene.setHeap device heap).Shows device { d with heap } :=
    ⟨if_pos rfl, hshows.kernels, hshows.stampAt, hshows.clock, hshows.sinks⟩
  have hover : c.scene.setDevice device { d with heap } =
      (c.scene.setHeap device heap).setDevice device { d with heap } := by
    apply Scene.ext
    case heap => exact (Scene.ite_self (f := (c.scene.setHeap device heap).heap) (if_pos rfl)).symm
    all_goals rfl
  rw [Context.scene_setDevice_lists hd hsteady.lists, hover]
  exact Scene.setDevice_self hshows'

namespace Control

/-- Two new cells for the times of an event. -/
theorem newStamps_run (h : OwnLists info c) (hd : c.devices[device]? = some d) :
    ∃ c₁ c₂ d₂, onDevice device Operate.newStamp c = .ok d.stamps.size c₁ ∧
      onDevice device Operate.newStamp c₁ = .ok (d.stamps.size + 1) c₂ ∧
      OwnLists info c₂ ∧ c₂.scene = c.scene ∧ c₂.queues = c.queues ∧
      c₂.devices[device]? = some d₂ ∧ d₂.stamps.size = d.stamps.size + 2 := by
  let d₁ : Simulator := { d with stamps := d.stamps.push 0 }
  let d₂ : Simulator := { d₁ with stamps := d₁.stamps.push 0 }
  have hpush : d₁.stamps.size = d.stamps.size + 1 := Array.size_push _
  have hpush' : d₂.stamps.size = d₁.stamps.size + 1 := Array.size_push _
  have hs₁ : d.Steady d₁ := ⟨rfl, rfl, d.stampAt_push, rfl, rfl, Nat.le_refl _, by omega, id⟩
  have hs₂ : d₁.Steady d₂ := ⟨rfl, rfl, d₁.stampAt_push, rfl, rfl, Nat.le_refl _, by omega, id⟩
  have hd₁ : (c.setDevice device d₁).devices[device]? = some d₁ :=
    Context.getElem?_setDevice_self hd d₁
  obtain ⟨hown₁, hscene₁⟩ := h.unseen hd hs₁ rfl rfl
  obtain ⟨hown₂, hscene₂⟩ := hown₁.unseen hd₁ hs₂ rfl rfl
  exact ⟨c.setDevice device d₁, (c.setDevice device d₁).setDevice device d₂, d₂, onDevice_ok hd rfl,
    hpush ▸ onDevice_ok hd₁ rfl, hown₂, hscene₂.trans hscene₁, rfl,
    Context.getElem?_setDevice_self hd₁ d₂, by omega⟩

end Control

/-! ## Events -/

namespace Control

variable {desc : Descriptor} {b : Brackets} {index : Nat} {w : EventWindow Brackets}

theorem register_ok (h : (c.share plan device).events.register desc b = .ok (index, w)) :
    register plan device desc b c =
      .ok index (c.setShare plan device { c.share plan device with events := w }) := by
  show EStateM.bind (ofExcept ((c.share plan device).events.register desc b)) _ c = _
  rw [h]
  rfl

theorem register_error {e : Error} (h : (c.share plan device).events.register desc b = .error e) :
    register plan device desc b c = .error e c := by
  show EStateM.bind (ofExcept ((c.share plan device).events.register desc b)) _ c = _
  rw [h]
  rfl

end Control

/-! ## Work -/

/-- Commands put between the timestamps of a new event, which is at an index of the
window. -/
structure Scene.Entered (plan device thread : Nat) (desc : Descriptor) (cs : List Command)
    (index : Nat)
    (b : Brackets) (w : EventWindow Brackets) (s s' : Scene) : Prop where
  registered : (s.share plan device).events.register desc b = .ok (index, w)
  start : s.stampAt device b.start = 0
  stop : s.stampAt device b.stop = 0
  apart : b.start ≠ b.stop
  fresh : ∀ p t, .stamp b.start ∉ s.pending p device t ∧ .stamp b.stop ∉ s.pending p device t
  after : s' =
    (s.setShare plan device { s.share plan device with events := w }).setPending plan device
    thread (s.pending plan device thread ++ (.stamp b.start :: (cs ++ [.stamp b.stop])))

namespace Scene.Entered

variable {desc : Descriptor} {cs : List Command} {index : Nat} {b : Brackets}
  {w : EventWindow Brackets} {s s' : Scene}

variable (h : Entered plan device thread desc cs index b w s s')

include h

theorem share_eq : s'.share plan device = { s.share plan device with events := w } := by
  rw [h.after]
  exact if_pos ⟨rfl, rfl⟩

theorem pending_if (p i t : Nat) :
    s'.pending p i t = if plan = p ∧ device = i ∧ thread = t then
      s.pending plan device thread ++ (.stamp b.start :: (cs ++ [.stamp b.stop]))
    else s.pending p i t := by
  rw [h.after]
  rfl

theorem pending_eq :
    s'.pending plan device thread =
      s.pending plan device thread ++ (.stamp b.start :: (cs ++ [.stamp b.stop])) := by
  rw [h.pending_if]
  exact if_pos ⟨rfl, rfl, rfl⟩

theorem heap_eq : s'.heap = s.heap := by
  rw [h.after]
  rfl

theorem stampAt_eq : s'.stampAt = s.stampAt := by
  rw [h.after]
  rfl

theorem sinks_eq : s'.sinks = s.sinks := by
  rw [h.after]
  rfl

theorem size_eq : s'.size = s.size := by
  rw [h.after]
  rfl

end Scene.Entered

namespace Control

variable {cs : List Command}

/-- A thread with a queue can record, and what it records is at the end of its list. -/
theorem recording_run (h : OwnLists info c) {list : Nat} {b : Brackets} {work : Operate Unit}
    (hq : (c.queues plan).get? device thread = some list)
    (hd : c.devices[device]? = some d)
    (hwork : ∀ d', d'.info = info device → work d' = cs.forM (record list) d')
    (hstart : b.start < d.stamps.size) (hstop : b.stop < d.stamps.size)
    (hcs : ∀ x ∈ cs, x.Within d) :
    ∃ c', onDevice device (do
        record list (.stamp b.start)
        work
        record list (.stamp b.stop)) c = .ok () c' ∧ OwnLists info c' ∧
      c'.scene = c.scene.setPending plan device thread
        (c.pending plan device thread ++ (.stamp b.start :: (cs ++ [.stamp b.stop]))) := by
  have horderly := h.devices device d hd
  obtain ⟨_, hd₁, hbefore⟩ := h.pending_get hq
  cases hd.symm.trans hd₁
  obtain ⟨lists, hrecord, hget, hkeyed⟩ := Operate.bracket_run b.start b.stop
    (fun d' hinfo => hwork d' (hinfo.trans horderly.about)) hbefore
  have hwithin : ∀ x ∈ c.pending plan device thread ++ (.stamp b.start :: (cs ++ [.stamp b.stop])),
      x.Within d :=
    forall_mem_append.2 ⟨horderly.within list _ hbefore, forall_mem_cons.2
      ⟨hstart, forall_mem_append.2 ⟨hcs, forall_mem_singleton.2 hstop⟩⟩⟩
  refine ⟨c.setDevice device { d with lists }, onDevice_ok hd hrecord, ?_, ?_⟩
  · refine h.setDevice hd (horderly.setList hbefore (hkeyed horderly.keyed) hget hwithin) ?_
    intro l
    rw [hget]
    split
    · next heq => rw [← heq, hbefore]; rfl
    · rfl
  · rw [h.scene_setList hq hd hget]
    exact congrArg (fun s : Scene => s.setPending plan device thread _)
      (Scene.setDevice_self ((Context.scene_shows hd).relist _ _))

/-- Work whose event found a slot was put at the end of what its thread has recorded;
otherwise nothing was. -/
def Enters (info : Nat → Info) (plan device thread : Nat) (desc : Descriptor) (cs : List Command)
    (c : Context) (r : EStateM.Result Error Context Nat) : Prop :=
  (∃ e c', r = .error e c' ∧ OwnLists info c' ∧ c'.scene = c.scene ∧
    (c.share plan device).events.nextFree = .error e) ∨
  ∃ index b w c', r = .ok index c' ∧ OwnLists info c' ∧
    Scene.Entered plan device thread desc cs index b w c.scene c'.scene

theorem bracketed_run (h : OwnLists info c) (hd : c.devices[device]? = some d) {desc : Descriptor}
    {work : Nat → Operate Unit}
    (hwork : ∀ list d', d'.info = info device → work list d' = cs.forM (record list) d')
    (hcs : ∀ x ∈ cs, x.Within d) (plan thread : Nat) :
    Enters info plan device thread desc cs c (bracketed plan device thread desc work c) := by
  obtain ⟨list, c₁, d₁, hqueue, hown₁, hscene₁, hlist, hd₁, hstamps⟩ := queue_run h hd plan thread
  obtain ⟨c₂, c₃, d₃, hstart, hstop, hown₃, hscene₃, hqueues₃, hd₃, hsize⟩ :=
    newStamps_run hown₁ hd₁
  rw [hstamps] at hstart hstop hsize
  have hscene : c₃.scene = c.scene := hscene₃.trans hscene₁
  have hshare : c₃.share plan device = c.share plan device :=
    congrFun (congrFun (congrArg Scene.share hscene) plan) device
  let b : Brackets := ⟨d.stamps.size, d.stamps.size + 1⟩
  -- what is left once the thread has its queue and the event its cells
  have hrest : bracketed plan device thread desc work c = (do
      let index ← register plan device desc b
      tryCatch (onDevice device (do
        record list (.stamp b.start)
        work list
        record list (.stamp b.stop))) fun e => do
          release plan device index
          throw e
      return index : Control Nat) c₃ := by
    refine (bind_of_ok hqueue).trans ?_
    exact (bind_of_ok hstart).trans (bind_of_ok hstop)
  cases hregister : (c.share plan device).events.register desc b with
  | error e =>
    refine .inl ⟨e, c₃, ?_, hown₃, hscene, EventWindow.register_error_iff.1 hregister⟩
    rw [hrest]
    exact bind_of_error (register_error (hshare ▸ hregister))
  | ok r =>
    obtain ⟨index, w⟩ := r
    have hset := register_ok (c := c₃) (hshare ▸ hregister)
    rw [hshare] at hset
    let c₄ := c₃.setShare plan device { c.share plan device with events := w }
    have hscene₄ : c₄.scene =
        c.scene.setShare plan device { c.share plan device with events := w } := by
      rw [← hscene]
      exact Context.scene_setShare c₃ _
    have hlist₄ : (c₄.queues plan).get? device thread = some list := by
      rw [show c₄.queues plan = c₃.queues plan from Context.queues_setShare _ _ _ _ _, hqueues₃]
      exact hlist
    have hsinks : d₃.sinks = d.sinks := by
      rw [← (Context.scene_shows hd₃).sinks, hscene, (Context.scene_shows hd).sinks]
    have hcells : ∀ x ∈ cs, x.Within d₃ := fun x hx =>
      (hcs x hx).mono (by omega) (Nat.le_of_eq (congrArg Array.size hsinks.symm))
    obtain ⟨c₅, hrecord, hown₅, hscene₅⟩ := recording_run (c := c₄) (b := b)
      (hown₃.setShare _ _ _) hlist₄ hd₃ (hwork list) (by show d.stamps.size < _; omega)
      (by show d.stamps.size + 1 < _; omega) hcells
    have hpending : c₄.pending plan device thread = c.pending plan device thread :=
      congrArg (fun s : Scene => s.pending plan device thread) hscene₄
    rw [hscene₄, hpending] at hscene₅
    have hzero : ∀ cell, d.stamps.size ≤ cell → c.scene.stampAt device cell = 0 := by
      intro cell hle
      rw [(Context.scene_shows hd).stampAt, Simulator.stampAt, Array.getD_eq_getD_getElem?,
        Array.getElem?_eq_none hle]
      rfl
    have hfresh : ∀ p t cell, d.stamps.size ≤ cell → .stamp cell ∉ c.pending p device t :=
      fun p t cell hle hmem => Nat.not_lt.2 hle (h.pending_within hd p t _ hmem)
    refine .inr ⟨index, b, w, c₅, ?_, hown₅, ⟨hregister, hzero _ (Nat.le_refl _),
      hzero _ (Nat.le_succ _), Nat.ne_of_lt (Nat.lt_succ_self _),
      fun p t => ⟨hfresh p t _ (Nat.le_refl _), hfresh p t _ (Nat.le_succ _)⟩, hscene₅⟩⟩
    rw [hrest]
    refine (bind_of_ok hset).trans ?_
    show EStateM.bind (EStateM.tryCatch (onDevice device _) _) _ c₄ = _
    rw [EStateM.bind, EStateM.tryCatch, hrecord]
    rfl

end Control

/-! ## Launches -/

/-- The frame a thread is given for some bytes, and what is left of a scene. -/
inductive Scene.Framed (plan device thread bytes : Nat) (s : Scene) : Nat → Scene → Prop
  | kept {f : Frame} (hf : (s.share plan device).frames.get? thread = some f)
    (hfits : bytes ≤ f.capacity) : Framed plan device thread bytes s f.address s
  | grown {f : Frame} {a : Nat} {heap : Heap}
    (hf : (s.share plan device).frames.get? thread = some f) (hsmall : f.capacity < bytes)
    (halloc : (s.heap device).allocate bytes.nextPowerOfTwo = .ok (a, heap)) :
    Framed plan device thread bytes s a ((s.setHeap device heap).setShare plan device
      { s.share plan device with
        frames := (s.share plan device).frames.insert thread
          ⟨a, bytes.nextPowerOfTwo, f.retired ++ [f.address]⟩ })
  | first {a : Nat} {heap : Heap} (hf : (s.share plan device).frames.get? thread = none)
    (halloc : (s.heap device).allocate (max bytes (Control.minFrameSlots * 8)).nextPowerOfTwo =
      .ok (a, heap)) :
    Framed plan device thread bytes s a ((s.setHeap device heap).setShare plan device
      { s.share plan device with
        frames := (s.share plan device).frames.insert thread
          ⟨a, (max bytes (Control.minFrameSlots * 8)).nextPowerOfTwo, []⟩ })

/-- A thread keeps its frame, or is given a new block and keeps what it has outgrown. -/
theorem Scene.Framed.shape {s s' : Scene} {bytes a : Nat}
    (h : Framed plan device thread bytes s a s') :
    (∃ f, (s.share plan device).frames.get? thread = some f ∧ bytes ≤ f.capacity ∧
      f.address = a ∧ s = s') ∨
    ∃ size heap retired, (s.heap device).allocate size = .ok (a, heap) ∧ bytes ≤ size ∧
      (∀ f, (s.share plan device).frames.get? thread = some f → f.address :: f.retired ⊆ retired) ∧
      (s.setHeap device heap).setShare plan device { s.share plan device with
        frames := (s.share plan device).frames.insert thread ⟨a, size, retired⟩ } = s' := by
  cases h with
  | @kept f hf hfits => exact .inl ⟨f, hf, hfits, rfl, rfl⟩
  | @grown f _ heap hf hsmall halloc =>
    refine .inr ⟨_, heap, _, halloc, le_nextPowerOfTwo bytes, fun f' hf' => ?_, rfl⟩
    cases hf.symm.trans hf'
    exact cons_subset.2 ⟨mem_append_right _ mem_cons_self, subset_append_left _ _⟩
  | @first _ heap hf halloc =>
    refine .inr ⟨_, heap, _, halloc,
      Nat.le_trans (Nat.le_max_left _ _) (le_nextPowerOfTwo _), fun f' hf' => ?_, rfl⟩
    cases hf.symm.trans hf'

namespace Control

/-- A request for memory, and what is then done with the block. -/
theorem allocate_run (h : OwnLists info c) (hd : c.devices[device]? = some d) (size : Nat) :
    (∃ fault, onDevice device (Operate.allocate size) c = .error (.execution fault) c ∧
      (c.scene.heap device).allocate size = .error fault) ∨
    ∃ a heap c', onDevice device (Operate.allocate size) c = .ok a c' ∧ OwnLists info c' ∧
      (c.scene.heap device).allocate size = .ok (a, heap) ∧
      c'.scene = c.scene.setHeap device heap ∧ c'.devices.size = c.devices.size := by
  have hrun : Operate.allocate size d = _ := Operate.onHeap_run (·.allocate size) d
  have hheap := (Context.scene_shows hd).heap
  cases halloc : d.heap.allocate size with
  | error fault =>
    simp only [halloc] at hrun
    refine .inl ⟨fault, ?_, hheap ▸ halloc⟩
    rw [onDevice_error hd hrun, Context.setDevice_self hd]
  | ok r =>
    obtain ⟨a, heap⟩ := r
    simp only [halloc] at hrun
    obtain ⟨hown, hscene⟩ := h.setHeap hd heap
    exact .inr ⟨a, heap, _, onDevice_ok hd hrun, hown, hheap ▸ halloc, hscene,
      Array.size_setIfInBounds⟩

theorem frameFor_run (h : OwnLists info c) (hd : c.devices[device]? = some d)
    (plan thread bytes : Nat) :
    (∃ e, frameFor plan device thread bytes c = .error e c) ∨
    ∃ a c', frameFor plan device thread bytes c = .ok a c' ∧ OwnLists info c' ∧
      Scene.Framed plan device thread bytes c.scene a c'.scene ∧
      c'.devices.size = c.devices.size := by
  -- a new block, and the frame made of it
  have hplace : ∀ (size : Nat) (frame : Nat → Frame),
      frameFor plan device thread bytes c = (do
        let a ← onDevice device (Operate.allocate size)
        changeShare plan device fun s => { s with frames := s.frames.insert thread (frame a) }
        return a : Control Nat) c →
      (∃ e, frameFor plan device thread bytes c = .error e c) ∨
      ∃ a heap c', frameFor plan device thread bytes c = .ok a c' ∧ OwnLists info c' ∧
        (c.scene.heap device).allocate size = .ok (a, heap) ∧
        c'.scene = (c.scene.setHeap device heap).setShare plan device { c.share plan device with
          frames := (c.share plan device).frames.insert thread (frame a) } ∧
        c'.devices.size = c.devices.size := by
    intro size frame hdo
    rcases allocate_run h hd size with
      ⟨fault, herr, -⟩ | ⟨a, heap, c₁, hok, hown, halloc, hscene, hsize⟩
    · refine .inl ⟨.execution fault, ?_⟩
      rw [hdo]
      exact bind_of_error herr
    · have hshare : c₁.share plan device = c.share plan device :=
        congrFun (congrFun (congrArg Scene.share hscene) plan) device
      refine .inr ⟨a, heap, c₁.setShare plan device { c₁.share plan device with
        frames := (c₁.share plan device).frames.insert thread (frame a) }, ?_, hown.setShare _ _ _,
        halloc, ?_, hsize⟩
      · rw [hdo]
        exact bind_of_ok hok
      · rw [Context.scene_setShare, hscene, hshare]
  cases hf : (c.share plan device).frames.get? thread with
  | none =>
    have hdo := hplace (max bytes (minFrameSlots * 8)).nextPowerOfTwo
      (fun a => ⟨a, (max bytes (minFrameSlots * 8)).nextPowerOfTwo, []⟩) (by
        simp only [frameFor, get_bind, hf])
    rcases hdo with herr | ⟨a, heap, c', hok, hown, halloc, hscene, hsize⟩
    · exact .inl herr
    · exact .inr ⟨a, c', hok, hown, hscene ▸ .first hf halloc, hsize⟩
  | some f =>
    by_cases hfits : bytes ≤ f.capacity
    · refine .inr ⟨f.address, c, ?_, h, .kept hf hfits, rfl⟩
      simp only [frameFor, get_bind, hf,
        if_pos hfits]
      rfl
    · have hdo := hplace bytes.nextPowerOfTwo
        (fun a => ⟨a, bytes.nextPowerOfTwo, f.retired ++ [f.address]⟩) (by
          simp only [frameFor, get_bind, hf,
            if_neg hfits])
      rcases hdo with herr | ⟨a, heap, c', hok, hown, halloc, hscene, hsize⟩
      · exact .inl herr
      · exact .inr ⟨a, c', hok, hown, hscene ▸ .grown hf (by omega) halloc, hsize⟩

/-- The commands of a launch: its arguments are copied into a frame, and the kernel is run with the
place of the frame. -/
def launchCommands (kernel : Nat) (range : Device.Range) (a : Nat) (bytes : List UInt8) :
    List Command :=
  [.write a bytes, .barrier, .launch kernel range heapBase (a - heapBase)]

variable {range : Device.Range}

/-- Over a range the device accepts, these are the commands that are recorded. -/
theorem launchWork_eq {list kernel a : Nat} {bytes : List UInt8}
    (hrange : range.check d.info = .ok ()) :
    (do
      record list (.write a bytes)
      record list .barrier
      Operate.launch list kernel range heapBase (a - heapBase) : Operate Unit) d =
    (launchCommands kernel range a bytes).forM (record list) d := by
  have hlaunch : ∀ d' : Simulator, d'.info = d.info →
      Operate.launch list kernel range heapBase (a - heapBase) d' =
        record list (.launch kernel range heapBase (a - heapBase)) d' := by
    intro d' hinfo
    simp only [Operate.launch, get_bind, hinfo, hrange]
  unfold launchCommands
  simp only [forM_eq_forM, forM_cons, forM_nil, bind_pure_unit]
  show EStateM.bind (record list _) _ d = EStateM.bind (record list _) _ d
  have hfirst := Operate.record_idle list (.write a bytes) d
  unfold EStateM.bind
  cases hrun : record list (.write a bytes) d with
  | error => rfl
  | ok _ d₁ =>
    rw [after_of_ok hrun] at hfirst
    show EStateM.bind (record list _) _ d₁ = EStateM.bind (record list _) _ d₁
    have hsecond := Operate.record_idle list .barrier d₁
    unfold EStateM.bind
    cases hrun₁ : record list .barrier d₁ with
    | error => rfl
    | ok _ d₂ =>
      rw [after_of_ok hrun₁] at hsecond
      exact hlaunch d₂ (hsecond.about.trans hfirst.about)

/-- A launch that is not refused is recorded once the thread has a frame. -/
theorem launch_eq (hd : c.devices[device]? = some d) {key : String} {kernel : InstalledKernel}
    (hkernel : (c.share plan device).kernels.getKey? key = some kernel)
    (hrange : range.check d.info = .ok ()) (thread : Nat) (args : List Argument) :
    launch plan device thread key range args c = (do
      let address ← frameFor plan device thread (frameBytes args).length
      bracketed plan device thread (.launch kernel.entry) fun list => do
        record list (.write address (frameBytes args))
        record list .barrier
        Operate.launch list kernel.handle range heapBase (address - heapBase) :
      Control Nat) (after (track plan) c) := by
  have hd₁ : (after (track plan) c).devices[device]? = some d := hd
  refine (bind_of_ok (claim_run hd)).trans ?_
  rw [hkernel]
  refine (bind_of_ok (deviceInfo_run hd₁)).trans ?_
  rw [hrange]

/-- A launch of an unknown kernel or over a range the device does not accept. -/
theorem launch_refused (hd : c.devices[device]? = some d) {key : String}
    (h : ∀ kernel, (c.share plan device).kernels.getKey? key = some kernel →
      range.check d.info ≠ .ok ()) (thread : Nat) (args : List Argument) :
    ∃ e, launch plan device thread key range args c = .error e (after (track plan) c) := by
  have hd₁ : (after (track plan) c).devices[device]? = some d := hd
  cases hkernel : (c.share plan device).kernels.getKey? key with
  | none =>
    refine ⟨.unknownKernel (.key key), ?_⟩
    refine (bind_of_ok (claim_run hd)).trans ?_
    rw [hkernel]
    rfl
  | some kernel =>
    cases hrange : range.check d.info with
    | ok => exact absurd hrange (h kernel hkernel)
    | error fault =>
      refine ⟨.execution fault, ?_⟩
      refine (bind_of_ok (claim_run hd)).trans ?_
      rw [hkernel]
      refine (bind_of_ok (deviceInfo_run hd₁)).trans ?_
      rw [hrange]
      rfl

/-- A launch is put at the end of what its thread has recorded, with a copy of its
arguments into the thread's frame in front of it. One that fails may leave a new frame. -/
theorem launch_run (h : OwnLists info c) (plan device thread : Nat) (key : String)
    (range : Device.Range) (args : List Argument) :
    (∃ e c', launch plan device thread key range args c = .error e c' ∧ OwnLists info c' ∧
      (c'.scene = c.scene ∨
        ∃ a, Scene.Framed plan device thread (frameBytes args).length c.scene a c'.scene)) ∨
    ∃ index kernel a b w s c', launch plan device thread key range args c = .ok index c' ∧
      OwnLists info c' ∧ (c.share plan device).kernels.getKey? key = some kernel ∧
      Scene.Framed plan device thread (frameBytes args).length c.scene a s ∧
      Scene.Entered plan device thread (.launch kernel.entry)
        (launchCommands kernel.handle range a (frameBytes args)) index b w s c'.scene := by
  have hown₁ := track_own h plan
  have hscene₁ := track_scene c plan
  cases hd : c.devices[device]? with
  | none =>
    exact .inl ⟨.unknownDevice device, c, bind_of_error (claim_of_none hd), h, .inl rfl⟩
  | some d =>
    have hd₁ : (after (track plan) c).devices[device]? = some d := hd
    have habout : d.info = info device := (h.devices device d hd).about
    by_cases haccepted : ∃ kernel, (c.share plan device).kernels.getKey? key = some kernel ∧
        range.check d.info = .ok ()
    · obtain ⟨kernel, hkernel, hrange⟩ := haccepted
      rw [launch_eq hd hkernel hrange]
      rcases frameFor_run hown₁ hd₁ plan thread (frameBytes args).length with
        ⟨e, herr⟩ | ⟨a, c₂, hok, hown₂, hframed, hsize⟩
      · refine .inl ⟨e, _, ?_, hown₁, .inl hscene₁⟩
        exact bind_of_error herr
      · rw [hscene₁] at hframed
        have hframe : ∀ (work : Nat → Control Nat),
            (frameFor plan device thread (frameBytes args).length >>= work) (after (track plan) c) =
              work a c₂ := by
          intro work
          exact bind_of_ok hok
        have hlt : device < c₂.devices.size := hsize ▸ (Array.getElem?_eq_some_iff.1 hd₁).1
        have hwithin : ∀ x ∈ launchCommands kernel.handle range a (frameBytes args),
            x.Within c₂.devices[device] := by
          simp [launchCommands, Command.Within]
        rw [hframe]
        rcases bracketed_run hown₂ (Array.getElem?_eq_getElem hlt) (fun list d' hinfo =>
            launchWork_eq ((hinfo.trans habout.symm) ▸ hrange)) hwithin plan thread with
          ⟨e, c', hfail, hown', hscene', -⟩ | ⟨index, b, w, c', hdone, hown', hentered⟩
        · exact .inl ⟨e, c', hfail, hown', .inr ⟨a, hscene' ▸ hframed⟩⟩
        · exact .inr
            ⟨index, kernel, a, b, w, c₂.scene, c', hdone, hown', hkernel, hframed, hentered⟩
    · obtain ⟨e, herr⟩ := launch_refused hd
        (fun kernel hkernel hrange => haccepted ⟨kernel, hkernel, hrange⟩) thread args
      exact .inl ⟨e, _, herr, hown₁, .inl hscene₁⟩

end Control

end Host

end KernelForge
