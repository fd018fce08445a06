import KernelForge.Proofs.Holdings.Operations

/-!
# What can be seen of plans and devices

A scene is what operations on plans are about: the commands each thread has recorded and not run,
what plans hold, and the memory, kernels, clocks and cells of devices. Queues, their handles and the
settings are not part of it.
-/

namespace KernelForge

namespace Host

open Device (Simulator Command Heap Kernel)

/-! ## Scenes -/

/-- What can be seen of plans and devices. -/
@[ext]
structure Scene where
  /-- What a thread of a plan has recorded on a device and not run. -/
  pending : Nat → Nat → Nat → List Command
  /-- What a plan holds on a device. -/
  share : Nat → Nat → Share
  /-- The memory of a device. -/
  heap : Nat → Heap
  /-- The kernels installed on a device. -/
  kernels : Nat → Table Nat Kernel
  /-- The time in a cell of a device. -/
  stampAt : Nat → Nat → Nat
  /-- The last time a device has given out. -/
  clock : Nat → Nat
  /-- The bytes a device has read, by cell. -/
  sinks : Nat → Array (List UInt8)
  /-- Number of devices. -/
  size : Nat

namespace Scene

variable (s : Scene) (plan device thread : Nat)

/-- Set what a plan holds on a device. -/
def setShare (held : Share) : Scene :=
  { s with share := fun p i => if plan = p ∧ device = i then held else s.share p i }

/-- Set what a thread has recorded. -/
def setPending (cs : List Command) : Scene :=
  { s with pending := fun p i t =>
      if plan = p ∧ device = i ∧ thread = t then cs else s.pending p i t }

/-- Set the memory of a device. -/
def setHeap (h : Heap) : Scene :=
  { s with heap := fun i => if device = i then h else s.heap i }

/-- Set the memory, the kernels, the clock and the cells of a device. -/
def setDevice (d : Simulator) : Scene :=
  { s with
    heap := fun i => if device = i then d.heap else s.heap i
    kernels := fun i => if device = i then d.kernels else s.kernels i
    stampAt := fun i => if device = i then d.stampAt else s.stampAt i
    clock := fun i => if device = i then d.clock else s.clock i
    sinks := fun i => if device = i then d.sinks else s.sinks i }

/-- A scene shows a device as it is. -/
structure Shows (d : Simulator) : Prop where
  heap : s.heap device = d.heap
  kernels : s.kernels device = d.kernels
  stampAt : s.stampAt device = d.stampAt
  clock : s.clock device = d.clock
  sinks : s.sinks device = d.sinks

variable {s plan device thread}

theorem Shows.relist {d : Simulator} (h : s.Shows device d) (lists : Table Nat (List Command))
    (lastHandle : Nat) : s.Shows device { d with lists, lastHandle } :=
  ⟨h.heap, h.kernels, h.stampAt, h.clock, h.sinks⟩

theorem setPending_self {cs : List Command} (h : s.pending plan device thread = cs) :
    s.setPending plan device thread cs = s := by
  unfold setPending
  congr
  funext p i t
  split
  · next heq => rw [← heq.1, ← heq.2.1, ← heq.2.2, h]
  · rfl

/-- Setting what is there already. -/
theorem ite_self {α : Type} {f : Nat → α} {a : α} (h : f device = a) :
    (fun i => if device = i then a else f i) = f := by
  funext i
  split
  · next heq => rw [← heq, h]
  · rfl

theorem setHeap_self (s : Scene) (device : Nat) : s.setHeap device (s.heap device) = s := by
  rw [setHeap, ite_self rfl]

theorem setDevice_self {d : Simulator} (h : s.Shows device d) : s.setDevice device d = s := by
  rw [setDevice, ite_self h.heap, ite_self h.kernels, ite_self h.stampAt, ite_self h.clock,
    ite_self h.sinks]

end Scene

namespace Context

variable (c : Context) (plan device thread : Nat)

/-- What a thread of a plan has recorded on a device and not run. -/
def pending : List Command :=
  (((c.queues plan).get? device thread).bind fun list =>
    c.devices[device]?.bind fun d => d.lists.get? list).getD []

/-- What can be seen of plans and devices. -/
def scene : Scene where
  pending := c.pending
  share := c.share
  heap i := (c.devices.getD i {}).heap
  kernels i := (c.devices.getD i {}).kernels
  stampAt i := (c.devices.getD i {}).stampAt
  clock i := (c.devices.getD i {}).clock
  sinks i := (c.devices.getD i {}).sinks
  size := c.devices.size

variable {c plan device thread} {c' : Context} {d d' : Simulator}

theorem pending_eq {list : Nat} {cs : List Command}
    (hq : (c.queues plan).get? device thread = some list) (hd : c.devices[device]? = some d)
    (hl : d.lists.get? list = some cs) : c.pending plan device thread = cs := by
  rw [pending, hq, Option.bind_some, hd, Option.bind_some, hl]
  rfl

theorem pending_of_none (hq : (c.queues plan).get? device thread = none) :
    c.pending plan device thread = [] := by
  rw [pending, hq]
  rfl

theorem scene_shows (hd : c.devices[device]? = some d) : c.scene.Shows device d := by
  have hget : c.devices.getD device {} = d := by
    rw [Array.getD_eq_getD_getElem?, hd]
    rfl
  exact ⟨congrArg Simulator.heap hget, congrArg Simulator.kernels hget,
    congrArg Simulator.stampAt hget, congrArg Simulator.clock hget, congrArg Simulator.sinks hget⟩

/-- A scene that shows every device is the one to be seen. -/
theorem scene_eq {s : Scene} (hpending : c.pending = s.pending) (hshare : c.share = s.share)
    (hshows : ∀ i, s.Shows i (c.devices.getD i {})) (hsize : c.devices.size = s.size) :
    c.scene = s :=
  Scene.ext hpending hshare (funext fun i => (hshows i).heap.symm)
    (funext fun i => (hshows i).kernels.symm) (funext fun i => (hshows i).stampAt.symm)
    (funext fun i => (hshows i).clock.symm) (funext fun i => (hshows i).sinks.symm) hsize

/-- Contexts with the same queues, shares and devices look the same. -/
theorem scene_congr (hqueues : ∀ p, c'.queues p = c.queues p) (hshare : c'.share = c.share)
    (hdevices : c'.devices = c.devices) : c'.scene = c.scene := by
  refine scene_eq ?_ hshare (fun i => ?_) (congrArg Array.size hdevices)
  · funext p i t
    show c'.pending p i t = c.pending p i t
    rw [pending, pending, hqueues, hdevices]
  · rw [hdevices]
    exact ⟨rfl, rfl, rfl, rfl, rfl⟩

theorem scene_setShare (c : Context) (held : Share) :
    (c.setShare plan device held).scene = c.scene.setShare plan device held := by
  apply Scene.ext
  · funext p i t
    show (c.setShare plan device held).pending p i t = c.pending p i t
    rw [pending, queues_setShare]
    rfl
  · funext p i
    exact c.share_setShare plan device p i held
  all_goals rfl

theorem scene_setQueues (c : Context) (q : ThreadQueues) :
    (c.setQueues plan q).scene = { c.scene with pending := (c.setQueues plan q).pending } := by
  apply Scene.ext
  · rfl
  · funext p i
    exact c.share_setQueues plan p i q
  all_goals rfl

theorem getElem?_setDevice (c : Context) (d : Simulator) (i : Nat) :
    (c.setDevice device d).devices[i]? =
      if device = i then (if device < c.devices.size then some d else none) else c.devices[i]? :=
  Array.getElem?_setIfInBounds

variable (hd : c.devices[device]? = some d)

include hd

theorem getElem?_setDevice_self (d' : Simulator) :
    (c.setDevice device d').devices[device]? = some d' := by
  rw [getElem?_setDevice, if_pos rfl, if_pos (Array.getElem?_eq_some_iff.1 hd).1]

theorem setDevice_self : c.setDevice device d = c := by
  have hsame : c.devices.setIfInBounds device d = c.devices := by
    refine Array.ext_getElem? fun i => ?_
    rw [Array.getElem?_setIfInBounds]
    split
    · next heq => rw [if_pos (Array.getElem?_eq_some_iff.1 hd).1, ← heq, hd]
    · rfl
  unfold setDevice
  rw [hsame]

/-- What is seen of a device once it is set, but for what is recorded on it. -/
theorem scene_setDevice (d' : Simulator) :
    (c.setDevice device d').scene =
      { c.scene.setDevice device d' with pending := (c.setDevice device d').pending } := by
  refine scene_eq rfl rfl (fun i => ?_) Array.size_setIfInBounds
  rw [Array.getD_eq_getD_getElem?, getElem?_setDevice, if_pos (Array.getElem?_eq_some_iff.1 hd).1]
  by_cases hi : device = i
  · rw [if_pos hi]
    exact ⟨if_pos hi, if_pos hi, if_pos hi, if_pos hi, if_pos hi⟩
  · rw [if_neg hi, ← Array.getD_eq_getD_getElem?]
    exact ⟨if_neg hi, if_neg hi, if_neg hi, if_neg hi, if_neg hi⟩

theorem scene_setDevice_lists (hlists : d'.lists = d.lists) :
    (c.setDevice device d').scene = c.scene.setDevice device d' := by
  have hlt := (Array.getElem?_eq_some_iff.1 hd).1
  have hpending : (c.setDevice device d').pending = c.pending := by
    funext p i t
    have hget : ∀ l, ((c.setDevice device d').devices[i]?.bind fun d => d.lists.get? l) =
        c.devices[i]?.bind fun d => d.lists.get? l := by
      intro l
      rw [getElem?_setDevice]
      split
      · next heq =>
        rw [← heq, hd]
        exact congrArg (·.get? l) hlists
      · rfl
    unfold pending
    simp only [hget]
    rfl
  rw [scene_setDevice hd, hpending]
  rfl

/-- A device on which nothing that can be seen has changed. -/
theorem scene_setDevice_same (hlists : d'.lists = d.lists)
    (hshows : c.scene.Shows device d') : (c.setDevice device d').scene = c.scene := by
  rw [scene_setDevice_lists hd hlists]
  exact Scene.setDevice_self hshows

end Context

end Host

end KernelForge
