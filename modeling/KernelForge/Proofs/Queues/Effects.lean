import KernelForge.Proofs.Queues.Closing

/-!
# What each operation can do

`Effect` says of each step of an operation on plans all it can do to what is seen of plans and
devices, whether it succeeds or fails, and `Step.effect` that it does nothing else. What every
effect keeps, every operation keeps (`Operation.perform_scene`), and so does every history.
-/

namespace KernelForge.Host

open List
open Device (Info Simulator Command Operate Heap Kernel)
open Context (scene_setDevice_lists scene_setShare scene_shows)
open Control (bracketed bracketed_run changeShare claim_of_none claim_run event onDevice
  onDevice_of_none onDevice_ok track track_own track_scene transferStart)
open Scene (Entered Flushed Framed)

variable {info : Nat → Info} {c : Context} {d : Simulator} {device : Nat} {Q : Scene → Prop}

/-! ## Other changes of a device -/

namespace Scene

/-- Set the bytes a device has read. -/
def setSinks (s : Scene) (device : Nat) (sinks : Array (List UInt8)) : Scene :=
  { s with sinks := fun i => if device = i then sinks else s.sinks i }

theorem setDevice_sinks {s : Scene} (h : s.Shows device d) (sinks : Array (List UInt8)) :
    s.setDevice device { d with sinks } = s.setSinks device sinks := by
  have hshows : (s.setSinks device sinks).Shows device { d with sinks } :=
    ⟨h.heap, h.kernels, h.stampAt, h.clock, if_pos rfl⟩
  rw [← setDevice_self hshows]
  apply Scene.ext
  case sinks => exact (ite_self (f := (s.setSinks device sinks).sinks) (if_pos rfl)).symm
  all_goals rfl

end Scene

/-- A device with more cells for bytes, or with other bytes in them. -/
theorem OwnLists.setSinks (h : OwnLists info c) (hd : c.devices[device]? = some d)
    {sinks : Array (List UInt8)} (hsize : d.sinks.size ≤ sinks.size) :
    OwnLists info (c.setDevice device { d with sinks }) ∧
      (c.setDevice device { d with sinks }).scene = c.scene.setSinks device sinks := by
  have horderly := h.devices device d hd
  refine ⟨h.setDevice hd ⟨horderly.about, horderly.keyed, horderly.handles, ?_, horderly.handed⟩
    fun _ => rfl, ?_⟩
  · intro l cs hl x hx
    exact (horderly.within l cs hl x hx).mono (Nat.le_refl _) hsize
  · have hlists : ({ d with sinks } : Simulator).lists = d.lists := rfl
    rw [scene_setDevice_lists hd hlists]
    exact Scene.setDevice_sinks (scene_shows hd) sinks

/-! ## Steps -/

/-- A copy inside a buffer, to or from an address that is a word. -/
structure Buffer.Spans (buffer : Buffer) (offset length : Nat) : Prop where
  inside : offset + length ≤ buffer.size
  word : buffer.address + offset < Nat.pow 2 64

namespace Step

/-- Steps that change nothing that can be seen. -/
def Silent : Step → Prop
  | .claim _ _ => True
  | .queue _ _ _ => True
  | .stage _ _ _ => True
  | _ => False

end Step

/-- What a step can do to what is seen of plans and devices; it succeeds or fails with an
error. -/
inductive Effect : Step → Option Error → Scene → Scene → Prop
  | idle {x : Step} {r : Option Error} {s : Scene} (h : r ≠ none ∨ x.Silent) : Effect x r s s
  | retained {plan device index : Nat} {s : Scene} {w : EventWindow Brackets}
    (hw : ∀ j, w.event j = (s.share plan device).events.event j) :
    Effect (.retain plan device index) none s
      (s.setShare plan device { s.share plan device with events := w })
  | released {plan device index : Nat} {s : Scene} {w : EventWindow Brackets}
    (hw : ∀ j, w.event j = (s.share plan device).events.event j) :
    Effect (.release plan device index) none s
      (s.setShare plan device { s.share plan device with events := w })
  | barrier {plan device thread index : Nat} {desc : Descriptor} {b : Brackets}
    {w : EventWindow Brackets} {s s' : Scene}
    (h : Entered plan device thread desc [.barrier] index b w s s') :
    Effect (.barrier plan device thread desc) none s s'
  | installed {plan device handle : Nat} {id entry : String} {binary : List UInt8}
    {source : Option Source} {s : Scene} {kernels : Table Nat Kernel} {cache : KernelCache}
    {gone rest : List Nat} (hnew : ¬s.Installed device handle)
    (hbefore : (s.share plan device).kernels.handles.Perm (gone ++ rest))
    (hafter : cache.handles.Perm (handle :: rest))
    (hkept : ∀ h, h = handle ∨ s.Installed device h → h ∉ gone → (kernels.get? h).isSome) :
    Effect (.installFrom plan device id entry binary source) none s
      ((s.setKernels device kernels).setShare plan device
        { s.share plan device with kernels := cache })
  | notInstalled {plan device : Nat} {id entry : String} {binary : List UInt8}
      {source : Option Source}
    {s : Scene} {kernels : Table Nat Kernel} {e : Error}
    (hkept : ∀ h, s.Installed device h → (kernels.get? h).isSome) :
    Effect (.installFrom plan device id entry binary source) (some e) s
      (s.setKernels device kernels)
  | allocated {plan device size a : Nat} {heap : Heap} {s : Scene}
    (halloc : (s.heap device).allocate size = .ok (a, heap)) :
    Effect (.allocate plan device size) none s ((s.setHeap device heap).setShare plan device
      { s.share plan device with
        buffers := (s.share plan device).buffers ++ [⟨device, a, size⟩] })
  | freed {plan : Nat} {buffer : Buffer} {heap : Heap} {r : Option Error} {s : Scene}
    (hheap : (s.heap buffer.device).Forgets heap) :
    Effect (.free plan buffer) r s ((s.setShare plan buffer.device
      { s.share plan buffer.device with
        buffers :=
          (s.share plan buffer.device).buffers.eraseP (·.address == buffer.address) }).setHeap
          buffer.device heap)
  | written {plan thread offset index : Nat} {buffer : Buffer} {data : List UInt8} {b : Brackets}
    {w : EventWindow Brackets} {s s' : Scene}
    (h : Entered plan buffer.device thread (.write data.length)
      [.write (buffer.address + offset) data, .barrier] index b w s s') :
    Effect (.enqueueWrite plan thread buffer offset data) none s s'
  | sunk {plan thread offset length : Nat} {buffer : Buffer} {e : Error} {s : Scene} :
    Effect (.enqueueRead plan thread buffer offset length) (some e) s
      (s.setSinks buffer.device ((s.sinks buffer.device).push []))
  | read {plan thread offset length index : Nat} {buffer : Buffer} {b : Brackets}
    {w : EventWindow Brackets} {s s' : Scene}
    (h : Entered plan buffer.device thread (.read length)
      [.read (buffer.address + offset) length (s.sinks buffer.device).size, .barrier] index b w
      (s.setSinks buffer.device ((s.sinks buffer.device).push [])) s') :
    Effect (.enqueueRead plan thread buffer offset length) none s s'
  | taken {r : PendingRead} {s : Scene} {sinks : Array (List UInt8)} :
    Effect (.takeBytes r) none s (s.setSinks r.device sinks)
  | framed {plan device thread a : Nat} {key : String} {range : Device.Range} {args : List Argument}
    {e : Error} {s s' : Scene}
    (h : Framed plan device thread (frameBytes args).length s a s') :
    Effect (.launch plan device thread key range args) (some e) s s'
  | launched {plan device thread a index : Nat} {key : String} {range : Device.Range}
    {args : List Argument} {kernel : InstalledKernel} {b : Brackets} {w : EventWindow Brackets}
    {s s₁ s' : Scene} (hkernel : (s.share plan device).kernels.getKey? key = some kernel)
    (hframed : Framed plan device thread (frameBytes args).length s a s₁)
    (h : Entered plan device thread (.launch kernel.entry)
      (Control.launchCommands kernel.handle range a (frameBytes args)) index b w s₁ s') :
    Effect (.launch plan device thread key range args) none s s'
  | flushed {plan device thread : Nat} {r : Option Error} {s s' : Scene}
    (h : Flushed plan device thread s r s') : Effect (.flush plan device thread) r s s'
  | closed {plan device thread : Nat} {s : Scene} :
    Effect (.cleanupQueue plan device thread) none s (s.setPending plan device thread [])
  | reset {plan : Nat} {r : Option Error} {s s' : Scene} (h : Scene.Reset plan s r s') :
    Effect (.reset plan) r s s'

namespace Step

variable {α : Type} {x : Step} {y : Control α} {c' : Context} {e : Error}

/-- A run ends with an effect of a step, and the queues are apart after it. -/
def Leaves (x : Step) (info : Nat → Info) (y : Control α) (c : Context) : Prop :=
  OwnLists info (after y c) ∧ Effect x (failure y c) c.scene (after y c).scene

def Does (info : Nat → Info) (x : Step) : Prop := ∀ c, OwnLists info c → x.Leaves info x.run c

section Runs

/-- What a run returns does not count. -/
theorem Does.ofRun (hrun : x.run = do let _ ← y) (h : ∀ c, OwnLists info c → x.Leaves info y c) :
    x.Does info := by
  intro c hc
  rw [Leaves, hrun, after_discard, failure_discard]
  exact h c hc

theorem does_of_ok {a : α} (hy : y c = .ok a c') (hown : OwnLists info c')
    (heffect : Effect x none c.scene c'.scene) : x.Leaves info y c := by
  rw [Leaves, after_of_ok hy, failure_of_ok hy]
  exact ⟨hown, heffect⟩

theorem does_of_error (hy : y c = .error e c') (hown : OwnLists info c')
    (heffect : Effect x (some e) c.scene c'.scene) : x.Leaves info y c := by
  rw [Leaves, after_of_error hy, failure_of_error hy]
  exact ⟨hown, heffect⟩

/-- A step that fails and leaves what can be seen. -/
theorem does_nothing (hy : y c = .error e c') (hown : OwnLists info c')
    (hscene : c'.scene = c.scene) : x.Leaves info y c :=
  does_of_error hy hown (hscene ▸ .idle (.inl nofun))

end Runs

/-! ### Plans, queues and events -/

theorem claim_does (plan device : Nat) : (claim plan device).Does info := by
  refine .ofRun rfl fun c h => ?_
  cases hd : c.devices[device]? with
  | none => exact does_nothing (claim_of_none hd) h rfl
  | some d =>
    refine does_of_ok (claim_run hd) (track_own h plan) ?_
    rw [track_scene]
    exact .idle (.inr trivial)

variable {plan offset thread : Nat} {buffer : Buffer} {length : Nat}

theorem queue_of_none (hd : c.devices[device]? = none) :
    Control.queue plan device thread c = .error (.unknownDevice device) c :=
  bind_of_error (claim_of_none hd)

theorem queue_does (plan device thread : Nat) : (queue plan device thread).Does info := by
  refine .ofRun rfl fun c h => ?_
  cases hd : c.devices[device]? with
  | none => exact does_nothing (queue_of_none hd) h rfl
  | some d =>
    obtain ⟨list, c', d', hrun, hown, hscene, -⟩ := Control.queue_run h hd plan thread
    exact does_of_ok hrun hown (hscene ▸ .idle (.inr trivial))

theorem stage_does (id entry : String) (binary : List UInt8) :
    (stage id entry binary).Does info := by
  refine .ofRun rfl fun c h => ?_
  rcases Control.stage_cases id entry binary c with ⟨hrun, -⟩ | ⟨source, staged, hrun⟩
  · exact does_nothing hrun h rfl
  · refine does_of_ok hrun (h.same h.plans (fun _ => rfl) rfl) ?_
    exact .idle (.inr trivial)

/-- An event window is exchanged, or nothing happens. -/
theorem setEvents_does {x : Step} {r : Except Error (EventWindow Brackets)} (h : OwnLists info c)
    (hrun : x.run c = (do
      let events ← ofExcept r
      changeShare plan device ({ · with events }) : Control Unit) c)
    (heffect : ∀ w, r = .ok w → Effect x none c.scene
      (c.scene.setShare plan device { c.share plan device with events := w })) :
    x.Leaves info x.run c := by
  cases r with
  | error => exact does_nothing (hrun.trans rfl) h rfl
  | ok w =>
    refine does_of_ok (hrun.trans rfl) (h.setShare plan device _) ?_
    rw [scene_setShare]
    exact heffect w rfl

theorem retain_does (plan device index : Nat) : (retain plan device index).Does info :=
  fun _ h => setEvents_does h rfl fun _ hw => .retained (EventWindow.marked_ok (.inl hw)).2

theorem release_does (plan device index : Nat) : (release plan device index).Does info :=
  fun _ h => setEvents_does h rfl fun _ hw => .released (EventWindow.marked_ok (.inr hw)).2

/-! ### Recording -/

theorem bracketed_of_none {desc : Descriptor}
    {work : Nat → Operate Unit} (hd : c.devices[device]? = none) :
    bracketed plan device thread desc work c = .error (.unknownDevice device) c :=
  bind_of_error (queue_of_none hd)

theorem barrier_run (h : OwnLists info c) (hd : c.devices[device]? = some d)
    (plan thread : Nat) (desc : Descriptor) :
    Control.Enters info plan device thread desc [.barrier] c
      (Control.barrier plan device thread desc c) := by
  have hwork : ∀ (list : Nat) (d' : Simulator), d'.info = info device →
      Operate.record list .barrier d' = [.barrier].forM (Operate.record list) d' := by
    intro list d' _
    simp only [forM_eq_forM, forM_cons, forM_nil, bind_pure_unit]
  exact bracketed_run h hd hwork (by simp [Command.Within]) plan thread

theorem barrier_does (plan device thread : Nat) (desc : Descriptor) :
    (barrier plan device thread desc).Does info := by
  refine .ofRun rfl fun c h => ?_
  cases hd : c.devices[device]? with
  | none => exact does_nothing (bracketed_of_none hd) h rfl
  | some =>
    rcases barrier_run h hd plan thread desc with
      ⟨e, c', hrun, hown, hscene, -⟩ | ⟨index, b, w, c', hrun, hown, hentered⟩
    · exact does_nothing hrun hown hscene
    · exact does_of_ok hrun hown (.barrier hentered)

theorem recordTwo_eq (list : Nat) (a b : Command) :
    (do Operate.record list a; Operate.record list b : Operate Unit) =
      [a, b].forM (Operate.record list) := by
  simp only [forM_eq_forM, forM_cons, forM_nil, bind_pure_unit]

theorem transferStart_outside (h : buffer.size < offset + length)
    (c : Context) : transferStart buffer offset length c =
      .error (.execution (.overrun length offset buffer.size)) c := by
  rw [transferStart, if_pos h]
  rfl

theorem transferStart_inside (h : buffer.Spans offset length) (c : Context) :
    transferStart buffer offset length c = .ok (buffer.address + offset) c := by
  rw [transferStart, if_neg (Nat.not_lt.2 h.inside), Device.wordOr, if_pos h.word]
  rfl

theorem transferStart_cases (buffer : Buffer) (offset length : Nat) (c : Context) :
    (∃ e, transferStart buffer offset length c = .error e c) ∨
      buffer.Spans offset length := by
  by_cases hover : buffer.size < offset + length
  · exact .inl ⟨_, transferStart_outside hover c⟩
  · by_cases hword : buffer.address + offset < Nat.pow 2 64
    · exact .inr ⟨Nat.not_lt.1 hover, hword⟩
    · refine .inl ⟨.execution (.trapped .sum), ?_⟩
      rw [transferStart, if_neg hover, Device.wordOr, if_neg hword]
      rfl

/-- A copy that stays inside its buffer is recorded. -/
theorem enqueueWrite_run (h : OwnLists info c)
    (hd : c.devices[buffer.device]? = some d) {data : List UInt8}
    (hspans : buffer.Spans offset data.length) (plan thread : Nat) :
    Control.Enters info plan buffer.device thread (.write data.length)
      [.write (buffer.address + offset) data, .barrier] c
      (Control.enqueueWrite plan thread buffer offset data c) := by
  have hwithin : ∀ x ∈ [.write (buffer.address + offset) data, Command.barrier], x.Within d := by
    simp [Command.Within]
  have hrest : Control.enqueueWrite plan thread buffer offset data c =
      bracketed plan buffer.device thread (.write data.length) (fun list => do
        Operate.record list (.write (buffer.address + offset) data)
        Operate.record list .barrier) c :=
    bind_of_ok (transferStart_inside hspans c)
  rw [hrest]
  exact bracketed_run h hd (fun list d' _ => congrFun (recordTwo_eq list _ _) d') hwithin
    plan thread

theorem enqueueWrite_does (plan thread : Nat) (buffer : Buffer) (offset : Nat) (data : List UInt8) :
    (enqueueWrite plan thread buffer offset data).Does info := by
  refine .ofRun rfl fun c h => ?_
  rcases transferStart_cases buffer offset data.length c with ⟨e, herr⟩ | hspans
  · exact does_nothing (bind_of_error herr) h rfl
  · cases hd : c.devices[buffer.device]? with
    | none =>
      have hstart := transferStart_inside hspans c
      exact does_nothing ((bind_of_ok hstart).trans (bracketed_of_none hd)) h rfl
    | some =>
      rcases enqueueWrite_run h hd hspans plan thread with
        ⟨e, c', hrun, hown, hscene, -⟩ | ⟨index, b, w, c', hrun, hown, hentered⟩
      · exact does_nothing hrun hown hscene
      · exact does_of_ok hrun hown (.written hentered)

/-- A read that stays inside its buffer is recorded with a new cell for its bytes. -/
theorem enqueueRead_run (h : OwnLists info c)
    (hd : c.devices[buffer.device]? = some d)
    (hspans : buffer.Spans offset length) (plan thread : Nat) :
    (∃ e c', Control.enqueueRead plan thread buffer offset length c = .error e c' ∧
      OwnLists info c' ∧
      c'.scene = c.scene.setSinks buffer.device ((c.scene.sinks buffer.device).push []) ∧
      (c.share plan buffer.device).events.nextFree = .error e) ∨
    ∃ index b w c', Control.enqueueRead plan thread buffer offset length c =
        .ok ⟨buffer.device, index, b, (c.scene.sinks buffer.device).size⟩ c' ∧ OwnLists info c' ∧
      Entered plan buffer.device thread (.read length)
        [.read (buffer.address + offset) length (c.scene.sinks buffer.device).size,
          .barrier] index b w
        (c.scene.setSinks buffer.device ((c.scene.sinks buffer.device).push [])) c'.scene := by
  let c₁ := after (track plan) c
  have hown₁ : OwnLists info c₁ := track_own h plan
  have hd₁ : c₁.devices[buffer.device]? = some d := hd
  have hsinks : c.scene.sinks buffer.device = d.sinks := (scene_shows hd).sinks
  rw [hsinks]
  have hpush : d.sinks.size ≤ (d.sinks.push []).size := by
    rw [Array.size_push]
    omega
  obtain ⟨hown₂, hscene₂⟩ := hown₁.setSinks hd₁ hpush
  rw [track_scene] at hscene₂
  let c₂ := c₁.setDevice buffer.device { d with sinks := d.sinks.push [] }
  have hsink : onDevice buffer.device Operate.newSink c₁ = .ok d.sinks.size c₂ :=
    onDevice_ok hd₁ rfl
  have hrest : Control.enqueueRead plan thread buffer offset length c = (do
      let index ← bracketed plan buffer.device thread (.read length) fun list => do
        Operate.record list (.read (buffer.address + offset) length d.sinks.size)
        Operate.record list .barrier
      let noted ← event plan buffer.device index
      return ⟨buffer.device, index, noted.2, d.sinks.size⟩ : Control PendingRead) c₂ := by
    refine (bind_of_ok (transferStart_inside hspans c)).trans ?_
    exact (bind_of_ok (claim_run hd)).trans (bind_of_ok hsink)
  have hd₂ : c₂.devices[buffer.device]? = some _ := Context.getElem?_setDevice_self hd₁ _
  have hwithin : ∀ x ∈ [.read (buffer.address + offset) length d.sinks.size, Command.barrier],
      x.Within { d with sinks := d.sinks.push [] } := by
    simp [Command.Within]
  have hshare : c₂.share plan buffer.device = c.share plan buffer.device :=
    congrArg (fun s : Scene => s.share plan buffer.device) hscene₂
  rcases bracketed_run hown₂ hd₂
    (fun list d' _ => congrFun (recordTwo_eq list _ _) d') hwithin
      plan thread with
    ⟨e, c', hrun, hown, hscene, hfree⟩ | ⟨index, b, w, c', hrun, hown, hentered⟩
  · refine .inl ⟨e, c', ?_, hown, hscene.trans hscene₂, hshare ▸ hfree⟩
    rw [hrest]
    exact bind_of_error hrun
  · refine .inr ⟨index, b, w, c', ?_, hown, hscene₂ ▸ hentered⟩
    have hevents : (c'.share plan buffer.device).events = w :=
      congrArg Share.events hentered.share_eq
    have hevent : (c'.share plan buffer.device).events.event index = .ok (.read length, b) := by
      rw [hevents, EventWindow.event_register hentered.registered, if_pos rfl]
    rw [hrest]
    refine (bind_of_ok hrun).trans ?_
    show EStateM.bind (ofExcept ((c'.share plan buffer.device).events.event index)) _ c' = _
    rw [hevent]
    rfl

theorem enqueueRead_does (plan thread : Nat) (buffer : Buffer) (offset length : Nat) :
    (enqueueRead plan thread buffer offset length).Does info := by
  refine .ofRun rfl fun c h => ?_
  rcases transferStart_cases buffer offset length c with ⟨e, herr⟩ | hspans
  · exact does_nothing (bind_of_error herr) h rfl
  · cases hd : c.devices[buffer.device]? with
    | none =>
      have hstart := transferStart_inside hspans c
      have hclaim : Control.claim plan buffer.device c = _ := claim_of_none hd
      exact does_nothing ((bind_of_ok hstart).trans (bind_of_error hclaim)) h rfl
    | some =>
      rcases enqueueRead_run h hd hspans plan thread with
        ⟨e, c', hrun, hown, hscene, -⟩ | ⟨index, b, w, c', hrun, hown, hentered⟩
      · exact does_of_error hrun hown (hscene ▸ .sunk)
      · exact does_of_ok hrun hown (.read hentered)

theorem takeBytes_eq (r : PendingRead) (c : Context) :
    Control.takeBytes r c = (if (c.timers r.device r.brackets).isComplete then
      onDevice r.device (Operate.takeSink r.sink)
      else throw (.execution (.unfinishedRead r.event))) c := rfl

theorem takeBytes_does (r : PendingRead) : (takeBytes r).Does info := by
  refine .ofRun rfl fun c h => ?_
  unfold Leaves after failure
  rw [takeBytes_eq]
  by_cases hdone : (c.timers r.device r.brackets).isComplete = true
  · rw [if_pos hdone]
    cases hd : c.devices[r.device]? with
    | none => exact does_nothing (onDevice_of_none hd _) h rfl
    | some d =>
      have hrun : Operate.takeSink r.sink d =
          .ok (d.sinkAt r.sink) { d with sinks := d.sinks.setIfInBounds r.sink [] } := rfl
      have hsize : d.sinks.size ≤ (d.sinks.setIfInBounds r.sink []).size :=
        Nat.le_of_eq Array.size_setIfInBounds.symm
      obtain ⟨hown, hscene⟩ := h.setSinks hd hsize
      exact does_of_ok (onDevice_ok hd hrun) hown (hscene ▸ .taken)
  · rw [if_neg hdone]
    exact ⟨h, .idle (.inl nofun)⟩

theorem launch_does (plan device thread : Nat) (key : String) (range : Device.Range)
    (args : List Argument) : (launch plan device thread key range args).Does info := by
  refine .ofRun rfl fun c h => ?_
  rcases Control.launch_run h plan device thread key range args with
    ⟨e, c', hrun, hown, hsame | ⟨a, hframed⟩⟩ |
    ⟨index, kernel, a, b, w, s, c', hrun, hown, hkernel, hframed, hentered⟩
  · exact does_nothing hrun hown hsame
  · exact does_of_error hrun hown (.framed hframed)
  · exact does_of_ok hrun hown (.launched hkernel hframed hentered)

/-! ### Kernels and memory -/

end Step

/-- A new kernel has a handle that no kernel had, and the one under its key is taken
back. An install that fails takes nothing back. -/
theorem KernelCache.install_run (k : KernelCache) (id entry : String) (binary : List UInt8)
    (source : Option Source) (hd : d.Handed) :
    (∃ e d', k.install id entry binary source d = .error e d' ∧ d.Steady d' ∧ d'.heap = d.heap ∧
      ∀ h, (d.kernels.get? h).isSome → (d'.kernels.get? h).isSome) ∨
    ∃ kernel k' d' gone rest, k.install id entry binary source d = .ok (kernel, k') d' ∧
      d.Steady d' ∧ d'.heap = d.heap ∧ d.kernels.get? kernel.handle = none ∧
      k.handles.Perm (gone ++ rest) ∧ k'.handles.Perm (kernel.handle :: rest) ∧
      ∀ h, h = kernel.handle ∨ (d.kernels.get? h).isSome → h ∉ gone →
        (d'.kernels.get? h).isSome := by
  let key := cacheKey id entry
  let handle := d.lastHandle + 1
  cases hbuild : Operate.build binary entry with
  | error e => exact .inl ⟨e, d, install_error hbuild, Chain.refl d, rfl, fun _ h => h⟩
  | ok r =>
    let kernel : Device.Kernel := ⟨entry, r.2, r.1⟩
    have hnone : d.kernels.get? handle = none := by
      refine Table.get?_eq_none_of_not_mem_keys fun hmem => ?_
      exact absurd (hd handle hmem) (Nat.not_succ_le_self _)
    have hsteady : d.Steady (d.addKernel kernel) := by
      refine ⟨rfl, rfl, rfl, rfl, rfl, Nat.le_succ _, Nat.le_refl _, fun _ h hh => ?_⟩
      have hh' : h ∈ (d.kernels.insert handle kernel).keys := hh
      rw [Table.keys_insert_of_none hnone] at hh'
      rcases mem_append.1 hh' with hold | hnew
      · exact Nat.le_succ_of_le (hd h hold)
      · exact Nat.le_of_eq (mem_singleton.1 hnew)
    have hadded : ∀ h, h = handle ∨ (d.kernels.get? h).isSome →
        ((d.kernels.insert handle kernel).get? h).isSome := by
      intro h hh
      rw [Table.get?_insert]
      split
      · rfl
      · next hne => exact hh.resolve_left fun heq => hne heq.symm
    obtain ⟨rest, hvalues, hput⟩ := k.byKey.values_insert_perm key
    have hbefore : k.handles.Perm ((k.getKey? key).toList.map (·.handle) ++ rest.map (·.handle)) :=
      (hvalues.map _).trans (by rw [map_append]; exact .refl _)
    cases hkey : k.getKey? key with
    | none =>
      rw [hkey] at hbefore
      exact .inr
        ⟨_, _, _, [], _, install_ok (Operate.install_ok hbuild) (by rw [hkey]; rfl), hsteady,
        rfl, hnone, hbefore, (hput _).map _, fun h hh _ => hadded h hh⟩
    | some previous =>
      rw [hkey] at hbefore
      have hwithdraws :=
        releaseKernel_withdraws (mem_singleton_self previous.handle) (d.addKernel kernel)
      cases hrelease : Operate.releaseKernel previous.handle (d.addKernel kernel) with
      | error e d₂ =>
        -- nothing is released when the handle is not known
        have hsame : d₂ = d.addKernel kernel := by
          rw [Operate.releaseKernel_eq] at hrelease
          split at hrelease
          · cases hrelease
          · cases hrelease
            rfl
        subst hsame
        refine .inl ⟨e, _, (bind_of_ok (Operate.install_ok hbuild)).trans ?_, hsteady, rfl,
          fun h hh => hadded h (.inr hh)⟩
        rw [hkey]
        exact bind_of_error hrelease
      | ok _ d₂ =>
        rw [after_of_ok hrelease] at hwithdraws
        obtain ⟨hsteady', hheap, hkept⟩ := hwithdraws
        exact .inr ⟨_, _, d₂, [previous.handle], _,
          install_ok (Operate.install_ok hbuild) (by rw [hkey]; exact hrelease),
          Chain.trans hsteady hsteady', hheap, hnone, hbefore, (hput _).map _,
          fun h hh => hkept h (hadded h hh)⟩

namespace Step

theorem installFrom_does (plan device : Nat) (id entry : String) (binary : List UInt8)
    (source : Option Source) : (installFrom plan device id entry binary source).Does info := by
  refine .ofRun rfl fun c h => ?_
  let action := (c.share plan device).kernels.install id entry binary source
  have hrest : Control.installFrom plan device id entry binary source c = (do
      let made ← onDevice device action
      changeShare plan device ({ · with kernels := made.2 })
      return made.1 : Control InstalledKernel) c := rfl
  cases hd : c.devices[device]? with
  | none =>
    have hnone : Control.installFrom plan device id entry binary source c =
        .error (.unknownDevice device) c := by
      rw [hrest]
      exact bind_of_error (onDevice_of_none hd _)
    exact does_nothing hnone h rfl
  | some d =>
    have hshows := scene_shows hd
    have hinstalled : ∀ k, c.scene.Installed device k ↔ (d.kernels.get? k).isSome := by
      intro k
      unfold Scene.Installed
      rw [hshows.kernels]
    rcases (c.share plan device).kernels.install_run id entry binary source
      (h.devices device d hd).handed
      with ⟨e, d', hrun, hsteady, hheap, hkept⟩ |
        ⟨kernel, kernels, d', gone, rest, hrun, hsteady, hheap, hnew, hbefore, hafter, hkept⟩
    · have hfails : Control.installFrom plan device id entry binary source c =
          .error e (c.setDevice device d') := by
        rw [hrest]
        exact bind_of_error (Control.onDevice_error hd hrun)
      refine does_of_error hfails (h.steady hd hsteady) ?_
      rw [scene_setDevice_lists hd hsteady.lists, Scene.setDevice_kernels hshows hsteady hheap]
      exact .notInstalled fun k hk => hkept k ((hinstalled k).1 hk)
    · have hdone : Control.installFrom plan device id entry binary source c =
          .ok kernel ((c.setDevice device d').setShare plan device
            { c.share plan device with kernels }) := by
        exact bind_of_ok (onDevice_ok hd hrun)
      refine does_of_ok hdone ((h.steady hd hsteady).setShare _ _ _) ?_
      rw [scene_setShare, scene_setDevice_lists hd hsteady.lists,
        Scene.setDevice_kernels hshows hsteady hheap]
      refine .installed ?_ hbefore hafter fun k hk =>
        hkept k (hk.imp_right (hinstalled k).1)
      rw [hinstalled, hnew]
      simp

theorem newBuffer_run (h : OwnLists info c) (hd : c.devices[device]? = some d) (plan size : Nat) :
    (∃ fault, Control.allocate plan device size c = .error (.execution fault) c ∧
      (c.scene.heap device).allocate size = .error fault) ∨
    ∃ a heap c', Control.allocate plan device size c = .ok ⟨device, a, size⟩ c' ∧ OwnLists info c' ∧
      (c.scene.heap device).allocate size = .ok (a, heap) ∧
      c'.scene = (c.scene.setHeap device heap).setShare plan device { c.share plan device with
        buffers := (c.share plan device).buffers ++ [⟨device, a, size⟩] } := by
  rcases Control.allocate_run h hd size with
    ⟨fault, herr, hfault⟩ | ⟨a, heap, c₁, hok, hown, halloc, hscene, -⟩
  · refine .inl ⟨fault, ?_, hfault⟩
    exact bind_of_error herr
  · have hshare : (after (track plan) c₁).share plan device = c.share plan device := by
      rw [Control.share_track]
      exact congrArg (fun s : Scene => s.share plan device) hscene
    refine .inr ⟨a, heap, (after (track plan) c₁).setShare plan device
      { c.share plan device with
        buffers := (c.share plan device).buffers ++ [⟨device, a, size⟩] }, ?_,
      (track_own hown plan).setShare _ _ _, halloc, ?_⟩
    · rw [← hshare]
      exact bind_of_ok hok
    · rw [scene_setShare, track_scene, hscene]

theorem allocate_does (plan device size : Nat) : (allocate plan device size).Does info := by
  refine .ofRun rfl fun c h => ?_
  cases hd : c.devices[device]? with
  | none =>
    have hnone : Control.allocate plan device size c = .error (.unknownDevice device) c :=
      bind_of_error (onDevice_of_none hd _)
    exact does_nothing hnone h rfl
  | some =>
    rcases newBuffer_run h hd plan size with
      ⟨fault, herr, -⟩ | ⟨a, heap, c', hok, hown, halloc, hscene⟩
    · exact does_nothing herr h rfl
    · exact does_of_ok hok hown (hscene ▸ .allocated halloc)

theorem free_does (plan : Nat) (buffer : Buffer) : (free plan buffer).Does info := by
  intro c h
  show (free plan buffer).Leaves info (Control.free plan buffer) c
  let buffers := (c.share plan buffer.device).buffers
  by_cases hheld : buffers.any (·.address == buffer.address) = true
  · let c₁ := c.setShare plan buffer.device { c.share plan buffer.device with
      buffers := buffers.eraseP (·.address == buffer.address) }
    have hrest : Control.free plan buffer c =
        onDevice buffer.device (Operate.free buffer.address) c₁ := by
      show (if buffers.any (·.address == buffer.address) = true then (do
          changeShare plan buffer.device
            ({ · with buffers := buffers.eraseP (·.address == buffer.address) })
          onDevice buffer.device (Operate.free buffer.address) : Control Unit)
        else throw (.unknownBuffer buffer.address)) c = _
      rw [if_pos hheld]
      rfl
    have hown₁ : OwnLists info c₁ := h.setShare _ _ _
    have hscene₁ : c₁.scene = c.scene.setShare plan buffer.device _ := scene_setShare c _
    have hafter : after (Control.free plan buffer) c =
        after (onDevice buffer.device (Operate.free buffer.address)) c₁ := by
      rw [after, hrest, after]
    rw [Leaves, hafter]
    cases hd : c.devices[buffer.device]? with
    | none =>
      have hd₁ : c₁.devices[buffer.device]? = none := hd
      rw [after_of_error (onDevice_of_none hd₁ _), hscene₁]
      have hself := Scene.setHeap_self (c.scene.setShare plan buffer.device
        { c.share plan buffer.device with
          buffers := buffers.eraseP (·.address == buffer.address) }) buffer.device
      rw [← hself]
      exact ⟨hown₁, .freed (.refl _)⟩
    | some d =>
      have hd₁ : c₁.devices[buffer.device]? = some d := hd
      obtain ⟨heap, hforgets, hown, hscene⟩ :=
        Control.frees_run hown₁ hd₁ (Operate.free_frees buffer.address)
      rw [hscene, hscene₁]
      exact ⟨hown, .freed hforgets⟩
  · have hrun : Control.free plan buffer c = .error (.unknownBuffer buffer.address) c := by
      show (if buffers.any (·.address == buffer.address) = true then (_ : Control Unit)
        else throw (.unknownBuffer buffer.address)) c = _
      rw [if_neg hheld]
      rfl
    exact does_nothing hrun h rfl

/-! ### Flushing and clean-up -/

/-- A flush runs what was recorded, unless there is no such device. -/
theorem flush_cases (h : OwnLists info c) (plan device thread : Nat) :
    Control.flush plan device thread c = .error (.unknownDevice device) c ∨
    OwnLists info (after (Control.flush plan device thread) c) ∧
      Flushed plan device thread c.scene (failure (Control.flush plan device thread) c)
        (after (Control.flush plan device thread) c).scene := by
  cases hd : c.devices[device]? with
  | none => exact .inl (bind_of_error (queue_of_none hd))
  | some => exact .inr (Control.flush_run h hd plan thread)

theorem flush_ok {c' : Context} (h : OwnLists info c)
    (hrun : Control.flush plan device thread c = .ok () c') :
    Flushed plan device thread c.scene none c'.scene := by
  rcases flush_cases h plan device thread with hnone | ⟨-, hflushed⟩
  · cases hnone.symm.trans hrun
  · rwa [failure_of_ok hrun, after_of_ok hrun] at hflushed

theorem flush_does (plan device thread : Nat) : (flush plan device thread).Does info := by
  intro c h
  rcases flush_cases h plan device thread with hnone | ⟨hown, hflushed⟩
  · exact does_nothing hnone h rfl
  · exact ⟨hown, .flushed hflushed⟩

theorem cleanupQueue_does (plan device thread : Nat) :
    (cleanupQueue plan device thread).Does info := by
  refine .ofRun rfl fun c h => ?_
  cases hd : c.devices[device]? with
  | none =>
    have hnone : Control.cleanupQueue plan device thread c = .error (.unknownDevice device) c :=
      bind_of_error (onDevice_of_none hd _)
    exact does_nothing hnone h rfl
  | some =>
    obtain ⟨b, c', hrun, hown, hscene⟩ := Control.cleanupQueue_run h hd plan thread
    exact does_of_ok hrun hown (hscene ▸ .closed)

theorem reset_does (plan : Nat) : (reset plan).Does info := by
  intro c h
  obtain ⟨hown, hreset⟩ := Control.reset_run h plan
  exact ⟨hown, .reset hreset⟩

/-- Each step does what its effects say, and nothing else. -/
theorem effect (x : Step) : x.Does info := by
  cases x with
  | claim => apply claim_does
  | queue => apply queue_does
  | stage => apply stage_does
  | retain => apply retain_does
  | release => apply release_does
  | barrier => apply barrier_does
  | installFrom => apply installFrom_does
  | allocate => apply allocate_does
  | free => apply free_does
  | enqueueWrite => apply enqueueWrite_does
  | enqueueRead => apply enqueueRead_does
  | takeBytes => apply takeBytes_does
  | launch => apply launch_does
  | flush => apply flush_does
  | cleanupQueue => apply cleanupQueue_does
  | reset => apply reset_does

end Step

/-! ## Operations -/

namespace Operation

/-- One operation keeps the queues apart. -/
theorem perform_own (op : Operation) (h : OwnLists info c) : OwnLists info (after op.perform c) :=
  perform_invariant (fun x _ c hc => (x.effect c hc).1) h

/-- What every effect keeps of what is seen, an operation keeps. -/
theorem perform_scene {op : Operation}
    (h : ∀ x r s s', op.Uses x → Effect x r s s' → Q s → Q s') (hc : OwnLists info c)
    (hq : Q c.scene) : Q (after op.perform c).scene := by
  have hboth : OwnLists info (after op.perform c) ∧ Q (after op.perform c).scene := by
    refine perform_invariant (P := fun c => OwnLists info c ∧ Q c.scene) (fun x hx c ⟨hc, hq⟩ => ?_)
      ⟨hc, hq⟩
    obtain ⟨hown, heffect⟩ := x.effect c hc
    exact ⟨hown, h x _ _ _ hx heffect hq⟩
  exact hboth.2

end Operation

/-! ## Histories -/

namespace Context

theorem Fresh.queues (h : c.Fresh info) (plan : Nat) : c.queues plan = {} := by
  unfold Context.queues
  rw [h.plans]
  rfl

theorem Fresh.share (h : c.Fresh info) (plan device : Nat) : c.share plan device = c.newShare := by
  unfold Context.share
  rw [h.plans]
  rfl

theorem Fresh.pending (h : c.Fresh info) (plan device thread : Nat) :
    c.pending plan device thread = [] := by
  refine pending_of_none ?_
  rw [h.queues]
  rfl

theorem Fresh.own (h : c.Fresh info) : OwnLists info c := by
  have hnone : ∀ p i t l, (c.queues p).get? i t ≠ some l := by
    intro p i t l hl
    rw [h.queues] at hl
    cases hl
  refine ⟨?_, fun p => ?_, fun i d hd => ?_, fun p i t l hl => absurd hl (hnone p i t l),
    fun p t p' t' i l hl _ => absurd hl (hnone p i t l), fun i d l cs hd hl => ?_⟩
  · rw [h.plans]
    exact nodup_nil
  · rw [h.queues]
    exact ThreadQueues.keyed_empty
  · obtain ⟨readings, rfl⟩ := h.devices i d hd
    exact Simulator.orderly_new (info i) readings
  · obtain ⟨readings, rfl⟩ := h.devices i d hd
    cases hl

theorem history_append (c : Context) (ops ops' : List Operation) :
    c.history (ops ++ ops') = (c.history ops).history ops' := foldl_append

theorem history_own (h : OwnLists info c) (ops : List Operation) : OwnLists info (c.history ops) :=
  history_invariant (fun op _ _ => op.perform_own) h

/-- What every effect keeps of what is seen, a history keeps. -/
theorem history_scene (h : ∀ x r s s', Effect x r s s' → Q s → Q s')
    (hc : OwnLists info c) (hq : Q c.scene) (ops : List Operation) : Q (c.history ops).scene := by
  refine (history_invariant (P := fun c => OwnLists info c ∧ Q c.scene) (fun op _ c hc => ?_)
    ⟨hc, hq⟩).2
  exact ⟨op.perform_own hc.1, Operation.perform_scene (fun x r s s' _ => h x r s s') hc.1 hc.2⟩

/-- What holds after a history and did not hold at its start came about by an operation. -/
theorem history_first {Q : Context → Prop} {ops : List Operation} (hstart : ¬Q c)
    (h : Q (c.history ops)) : ∃ before op rest, ops = before ++ op :: rest ∧
      ¬Q (c.history before) ∧ Q (after op.perform (c.history before)) := by
  induction ops generalizing c with
  | nil => exact absurd h hstart
  | cons op ops ih =>
    by_cases hnow : Q (after op.perform c)
    · exact ⟨[], op, ops, rfl, hstart, hnow⟩
    · obtain ⟨before, op', rest, rfl, hfound⟩ := ih hnow h
      exact ⟨op :: before, op', rest, rfl, hfound⟩

end Context

/-- A binary with one kernel `k`, which takes a heap and a frame and has one instruction, a word. -/
def kernelEnding (last : UInt32) : List UInt8 :=
  Spirv.bytesOfWords
    [0x07230203, 0x00010000, 0, 9, 0, 0x0004000F, 6, 3, 0x6b, 0x00020013, 1, 0x00040015, 5, 8, 0,
      0x00040020, 8, 5, 5, 0x00050021, 2, 1, 8, 8, 0x00050036, 1, 3, 0, 2, 0x00030037, 8, 6,
      0x00030037, 8, 7, 0x000200F8, 4, last, 0x00010038]

end KernelForge.Host
