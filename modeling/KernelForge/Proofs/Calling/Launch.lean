import KernelForge.Proofs.Loading.Install

/-!
# What a launch records and what it starts

A launch is recorded at the end of the thread's list: the arguments are copied into the thread's
frame and the kernel is run with the place of the frame (`Control.launch_records`). Running it
starts the work-items one after another, each on what those before it have left (`Program.Starts`).
-/

namespace KernelForge

/-! ## Recording -/

variable {list : Nat}

namespace Device.Operate

/-- An action that, when it succeeds, has put commands at the end of a list. -/
def Records (list : Nat) (cs : List Command) (x : Operate Unit) : Prop :=
  ∀ (d d' : Simulator) (u : Unit), x d = .ok u d' →
    ∃ before, d.lists.get? list = some before ∧ d'.lists.get? list = some (before ++ cs)

theorem record_records (list : Nat) (c : Command) : Records list [c] (record list c) := by
  intro d d' u h
  obtain ⟨before, d₁, hget, h⟩ := bind_ok.1 h
  rw [commands_run] at hget
  cases hlist : d.lists.get? list with
  | none =>
    rw [hlist] at hget
    cases hget
  | some =>
    rw [hlist] at hget
    cases hget
    cases modify_ok.1 h
    exact ⟨before, rfl, Table.get?_insert_self _ _ _⟩

theorem Records.bind {cs cs' : List Command} {x y : Operate Unit}
    (hx : Records list cs x) (hy : Records list cs' y) :
    Records list (cs ++ cs') (x >>= fun _ => y) := by
  intro d d' u h
  obtain ⟨_, d₁, h₁, h₂⟩ := bind_ok.1 h
  obtain ⟨before, hbefore, hbetween⟩ := hx d d₁ _ h₁
  obtain ⟨between, hbetween', hafter⟩ := hy d₁ d' _ h₂
  cases hbetween.symm.trans hbetween'
  exact ⟨before, hbefore, by rw [hafter, List.append_assoc]⟩

theorem launch_records (list kernel : Nat) (range : Range) (base frame : Nat) :
    Records list [.launch kernel range base frame] (launch list kernel range base frame) := by
  intro d d' u h
  replace h := get_bind_ok.1 h
  cases hcheck : range.check d.info with
  | error =>
    rw [hcheck] at h
    exact absurd h throw_ok
  | ok =>
    rw [hcheck] at h
    exact record_records list _ d d' u h

end Device.Operate

namespace Host

open Device (Operate Simulator Command)
open Device.Operate (Records)

variable {plan device thread : Nat} {c c' : Context}

/-- A queue that was asked for is the thread's. -/
theorem ThreadQueues.acquire_get {q q' : ThreadQueues} {d d' : Simulator}
    (h : q.acquire device thread d = .ok (list, q') d') : q'.get? device thread = some list := by
  unfold acquire at h
  cases hget : q.get? device thread with
  | some =>
    rw [hget] at h
    obtain ⟨heq, -⟩ := pure_ok.1 h
    cases heq
    exact hget
  | none =>
    rw [hget] at h
    obtain ⟨queue, d₁, -, h⟩ := bind_ok.1 h
    obtain ⟨heq, -⟩ := pure_ok.1 h
    cases heq
    simp [ThreadQueues.get?, ThreadQueues.onDevice, ThreadQueues.insert, Table.get?_insert]

namespace Control

theorem onDevice_inv {α : Type} {action : Operate α} {x : α}
    (h : onDevice device action c = .ok x c') :
    ∃ d d', c.devices[device]? = some d ∧ action d = .ok x d' ∧ c' = c.setDevice device d' := by
  cases hd : c.devices[device]? with
  | none =>
    rw [onDevice_of_none hd] at h
    cases h
  | some d =>
    rw [onDevice_of_some hd] at h
    cases haction : action d with
    | error =>
      rw [haction] at h
      cases h
    | ok y d' =>
      rw [haction] at h
      cases h
      exact ⟨d, d', rfl, haction, rfl⟩

theorem claim_share {s : Share} (h : claim plan device c = .ok s c') : s = c.share plan device := by
  obtain ⟨_, c₁, hinfo, h⟩ := bind_ok.1 h
  obtain ⟨d, d', -, -, rfl⟩ := onDevice_inv hinfo
  replace h := modify_bind_ok.1 h
  obtain ⟨rfl, -⟩ := pure_ok.1 h
  unfold Context.share
  rw [Table.get?_insert_self]
  show (Option.bind (some ((c.plans.get? plan).getD {})) _).getD _ = _
  cases c.plans.get? plan with
  | none | some => rfl

theorem queue_get (h : queue plan device thread c = .ok list c') :
    (c'.queues plan).get? device thread = some list := by
  obtain ⟨_, c₁, -, h⟩ := bind_ok.1 h
  replace h := get_bind_ok.1 h
  obtain ⟨⟨list', q⟩, c₂, hdevice, h⟩ := bind_ok.1 h
  obtain ⟨d, d', -, hacquire, rfl⟩ := onDevice_inv hdevice
  obtain ⟨rfl, rfl⟩ := pure_ok.1 h
  rw [Context.queues_setQueues, if_pos rfl]
  exact ThreadQueues.acquire_get hacquire

variable {index : Nat}

/-- An event leaves the queues alone. -/
theorem register_queues {d : Descriptor} {b : Brackets}
    (h : register plan device d b c = .ok index c') : c'.queues plan = c.queues plan := by
  replace h := get_bind_ok.1 h
  obtain ⟨⟨index', events⟩, _, hevents, h⟩ := bind_ok.1 h
  obtain ⟨-, rfl⟩ := ofExcept_ok.1 hevents
  obtain ⟨-, rfl⟩ := pure_ok.1 h
  exact c.queues_setShare plan device plan _

/-- Work stands between its two timestamps at the end of the thread's list. -/
theorem bracketed_records {desc : Descriptor} {work : Nat → Operate Unit} {cs : List Command}
    (hwork : ∀ list, Records list cs (work list))
    (h : bracketed plan device thread desc work c = .ok index c') :
    ∃ list d before start stop, (c'.queues plan).get? device thread = some list ∧
      c'.devices[device]? = some d ∧
      d.lists.get? list = some (before ++ .stamp start :: cs ++ [.stamp stop]) := by
  obtain ⟨list, c₁, hqueue, h⟩ := bind_ok.1 h
  obtain ⟨start, c₂, hstart, h⟩ := bind_ok.1 h
  obtain ⟨-, d₂, -, -, rfl⟩ := onDevice_inv hstart
  obtain ⟨stop, c₃, hstop, h⟩ := bind_ok.1 h
  obtain ⟨-, d₃, -, -, rfl⟩ := onDevice_inv hstop
  obtain ⟨index', c₄, hregister, h⟩ := bind_ok.1 h
  obtain ⟨_, c₅, htry, h⟩ := bind_ok.1 h
  obtain ⟨-, rfl⟩ := pure_ok.1 h
  -- a failed recording is thrown on, so the recording has succeeded
  have hthrown : ∀ (e : Error) (t : Context) (u : Unit) (t' : Context),
      (release plan device index' >>= fun _ => throw e : Control Unit) t ≠ .ok u t' := by
    intro e t u t' hcaught
    obtain ⟨_, _, -, hthrow⟩ := bind_ok.1 hcaught
    exact throw_ok hthrow
  obtain ⟨d, d', hd, hrecord, rfl⟩ := onDevice_inv ((tryCatch_ok fun e t => hthrown e t _ _).1 htry)
  have hall := (Operate.record_records list (.stamp start)).bind
    ((hwork list).bind (Operate.record_records list (.stamp stop)))
  obtain ⟨before, -, hafter⟩ := hall d d' _ hrecord
  refine ⟨list, d', before, start, stop, ?_, ?_, ?_⟩
  · have hget := queue_get hqueue
    show (c₄.queues plan).get? device thread = some list
    rw [register_queues hregister]
    exact hget
  · exact Array.getElem?_setIfInBounds_self_of_lt (Array.getElem?_eq_some_iff.1 hd).1
  · rw [hafter]
    simp

/-- A launch is recorded as a copy of its arguments into a frame and a run of the
kernel under the key, which is told the place of the frame. -/
theorem launch_records {key : String} {range : Device.Range} {args : List Argument}
    (h : launch plan device thread key range args c = .ok index c') :
    ∃ kernel list address d before start stop,
      (c.share plan device).kernels.getKey? key = some kernel ∧
      (c'.queues plan).get? device thread = some list ∧ c'.devices[device]? = some d ∧
      d.lists.get? list = some (before ++ [.stamp start, .write address (frameBytes args), .barrier,
        .launch kernel.handle range Device.heapBase (address - Device.heapBase), .stamp stop]) := by
  obtain ⟨share, c₁, hclaim, h⟩ := bind_ok.1 h
  cases claim_share hclaim
  cases hkernel : (c.share plan device).kernels.getKey? key with
  | none =>
    rw [hkernel] at h
    exact absurd h throw_ok
  | some kernel =>
    rw [hkernel] at h
    obtain ⟨info, c₂, -, h⟩ := bind_ok.1 h
    cases hcheck : range.check info with
    | error =>
      rw [hcheck] at h
      exact absurd h throw_ok
    | ok =>
      rw [hcheck] at h
      obtain ⟨address, c₃, -, h⟩ := bind_ok.1 h
      have hwork :=
        fun list => (Operate.record_records list (.write address (frameBytes args))).bind
        ((Operate.record_records list .barrier).bind
          (Operate.launch_records list kernel.handle range
          Device.heapBase (address - Device.heapBase)))
      obtain ⟨list, d, before, start, stop, hqueue, hd, hlist⟩ := bracketed_records hwork h
      refine ⟨kernel, list, address, d, before, start, stop, rfl, hqueue, hd, ?_⟩
      rw [hlist]
      simp

end Control

end Host

/-! ## Starting -/

namespace Device.Program

/-- A launch calls its entry point with some arguments for a work-item and a store. -/
structure Starts (p : Program) (entry : Spirv.Id) (range : Range) (base frame : Nat) (heap : Heap)
    (args : List Value) (item : WorkItem) (s : Store) : Prop where
  called : p.entryArgs entry base frame = .ok args
  started : p.GroupStarts entry args range range.groups.volume 0 heap item s

theorem Starts.extent {p : Program} {entry : Spirv.Id} {range : Range} {base frame : Nat}
    {heap : Heap} {args : List Value} {item : WorkItem} {s : Store}
    (h : p.Starts entry range base frame heap args item s) : heap.SameExtent s.heap :=
  h.started.heap (fun item s _ hs => hs.trans (runItem_extent p entry args item s)) (.refl heap)

end Device.Program

end KernelForge
