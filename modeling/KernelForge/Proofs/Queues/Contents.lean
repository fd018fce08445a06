import KernelForge.Proofs.Queues.Effects
import KernelForge.Proofs.Queues.Replay

/-!
# What the buffers of a plan hold

A thread copies to and from the buffers of a plan and flushes when it likes. What a buffer holds is
what it would hold if all that is recorded were run (`Scene.contents`): recording a copy changes it
at once, and a flush does not.

* `Admission` is what decides whether a call is accepted: the shape of the window and the memory
handed out. It does not see what is recorded, so a flush leaves it.
* `Scene.Sequential` is the invariant of a thread that only transfers; each kind of change keeps it.
* `Scene.Delivers` follows one read from its recording to the bytes that arrive.

Scenes are all that is looked at; that the calls change them so is proved in `Queues.Transfers`.
-/

namespace KernelForge.Host

open List hiding get
open Device (Command Heap splice alignment heapBase Operate)

/-! ## Admission -/

namespace EventWindow

variable {τ : Type} {w w' : EventWindow τ}

/-- A window without its events. -/
def shape (w : EventWindow τ) : EventWindow Unit :=
  ⟨w.circular, w.cursor, w.slots.map fun s => ⟨none, s.retained, s.live⟩⟩

theorem getD_shape (w : EventWindow τ) (i : Nat) :
    w.shape.slots.getD i {} = ⟨none, (w.slots.getD i {}).retained, (w.slots.getD i {}).live⟩ := by
  unfold shape
  rw [Array.getD_eq_getD_getElem?, Array.getD_eq_getD_getElem?, Array.getElem?_map]
  cases w.slots[i]? with
  | none | some => rfl

/-- Slots are looked for in the shape of a window. -/
theorem nextFree_shape (w : EventWindow τ) : w.shape.nextFree = w.nextFree := by
  have hcapacity : w.shape.capacity = w.capacity := Array.size_map
  have hretained : ∀ i, w.shape.isRetained i = w.isRetained i := fun i =>
    congrArg Slot.retained (w.getD_shape i)
  have hlive : ∀ i, w.shape.isLive i = w.isLive i := fun i => congrArg Slot.live (w.getD_shape i)
  have hcount : w.shape.retainedCount = w.retainedCount := by
    unfold retainedCount shape
    rw [Array.countP_map]
    rfl
  unfold nextFree
  simp only [hcapacity, hretained, hlive, hcount]
  rfl

/-- Which slot an event takes, and the shape it leaves, can be told from the shape. -/
theorem register_shape {desc : Descriptor} {b : τ} {index : Nat}
    (h : w.register desc b = .ok (index, w')) :
    ∃ v, w.shape.register .barrier () = .ok (index, v) ∧ v.shape = w'.shape := by
  obtain ⟨hfree, rfl⟩ := register_eq h
  cases hshape : w.shape.register .barrier () with
  | error =>
    rw [register_error_iff, nextFree_shape, hfree] at hshape
    cases hshape
  | ok r =>
    obtain ⟨i, v⟩ := r
    obtain ⟨hfree', rfl⟩ := register_eq hshape
    rw [nextFree_shape, hfree] at hfree'
    cases hfree'
    refine ⟨_, rfl, ?_⟩
    have hcapacity : w.shape.capacity = w.capacity := Array.size_map
    unfold shape
    congr 1
    · rw [← hcapacity]
      rfl
    · refine Array.ext_getElem? fun j => ?_
      rw [Array.getElem?_map, Array.getElem?_map, Array.getElem?_modify, Array.getElem?_modify,
        Array.getElem?_map]
      split
      · cases w.slots[j]? with
        | none | some => rfl
      · cases w.slots[j]? with
        | none | some => rfl

end EventWindow

/-- What decides whether an operation of a plan on a device is accepted. -/
structure Admission where
  window : EventWindow Unit
  buffers : List Buffer
  /-- Bytes of memory handed out. -/
  used : Nat
  capacity : Nat

namespace Admission

/-- Take a slot of the window. -/
def enter (k : Admission) : Option Admission :=
  match k.window.register .barrier () with
  | .ok (_, w) => some { k with window := w.shape }
  | .error _ => none

/-- Take a slot for a transfer that stays inside a buffer. -/
def transfer (k : Admission) (b : Buffer) (offset length : Nat) : Option Admission :=
  if b.size < offset + length then none else k.enter

/-- Take memory for a buffer. -/
def allocate (k : Admission) (device size : Nat) : Option Admission :=
  let offset := (k.used + (alignment - 1)) / alignment * alignment
  if offset + max size 1 ≤ k.capacity ∧ offset + max size 1 < Nat.pow 2 63 then
    some { k with
      buffers := k.buffers ++ [⟨device, heapBase + offset, size⟩]
      used := offset + max size 1 }
  else none

/-- What is left once a transfer was accepted; nothing if it is refused. -/
def accept (k : Admission) : Operation → Option Admission
  | .allocate _ device size => k.allocate device size
  | .enqueueWrite _ _ b offset data | .write _ _ b offset data => k.transfer b offset data.length
  | .enqueueRead _ _ b offset length | .read _ _ b offset length => k.transfer b offset length
  | .barrier _ _ _ _ => k.enter
  | _ => some k

end Admission

/-- Why a copy or a barrier fails. -/
inductive Refusal (w : EventWindow Brackets) : Error → Prop
  | overrun (length offset size : Nat) : Refusal w (.execution (.overrun length offset size))
  | window {e : Error} (h : w.nextFree = .error e) : Refusal w e

/-- Buffers that do not overlap, each of at least one byte. -/
def Buffer.Apart (b b' : Buffer) : Prop :=
  b.address + max b.size 1 ≤ b'.address ∨ b'.address + max b'.size 1 ≤ b.address

instance : Std.Symm Buffer.Apart := ⟨fun _ _ => Or.symm⟩

variable {e : Error} {size length offset : Nat}

namespace Scene

variable {s s' : Scene} {plan device thread : Nat}

/-- What decides whether an operation is accepted. -/
def admission (s : Scene) (plan device : Nat) : Admission :=
  ⟨(s.share plan device).events.shape, (s.share plan device).buffers, (s.heap device).used,
    (s.heap device).capacity⟩

/-- A window without a slot. -/
theorem enter_none (h : (s.share plan device).events.nextFree = .error e) :
    (s.admission plan device).enter = none := by
  have hregister : (s.admission plan device).window.register .barrier () = .error e := by
    rw [EventWindow.register_error_iff]
    show (s.share plan device).events.shape.nextFree = _
    rw [EventWindow.nextFree_shape, h]
  unfold Admission.enter
  rw [hregister]

variable {index : Nat} {w : EventWindow Brackets} {cs : List Command} {buffer : Buffer}
  {desc : Descriptor} {b : Brackets}

/-- A window with a slot, which is then taken. -/
theorem enter_some (he : Entered plan device thread desc cs index b w s s') :
    (s.admission plan device).enter = some (s'.admission plan device) := by
  obtain ⟨v, hregister, hshape⟩ := EventWindow.register_shape he.registered
  have hregister' : (s.admission plan device).window.register .barrier () = .ok (index, v) :=
    hregister
  unfold Admission.enter
  rw [hregister']
  unfold Scene.admission
  rw [he.share_eq, he.heap_eq, ← hshape]

/-! ## Contents -/

/-- What a buffer holds once all that a thread has recorded was run. -/
def contents (s : Scene) (plan device thread : Nat) (b : Buffer) : List UInt8 :=
  ((s.heap device).replay (s.pending plan device thread)).span b.address b.size

/-- Only transfers are recorded, each inside the memory handed out; the buffers do not
overlap, and hold the bytes `K` says. -/
structure Sequential (plan device thread : Nat) (K : Buffer → List UInt8) (s : Scene) : Prop where
  used : (s.heap device).used < Nat.pow 2 63
  unframed : (s.share plan device).frames.get? thread = none
  sound : ∀ x ∈ s.pending plan device thread, x.Sound (s.heap device)
  placed : ∀ b ∈ (s.share plan device).buffers,
    b.device = device ∧ (s.heap device).InBounds b.address (max b.size 1)
  apart : (s.share plan device).buffers.Pairwise Buffer.Apart
  holds : ∀ b ∈ (s.share plan device).buffers, s.contents plan device thread b = K b
  blank : ∀ b, b ∉ (s.share plan device).buffers → K b = List.replicate b.size 0

namespace Sequential

variable {K K' : Buffer → List UInt8}

theorem inBounds (h : Sequential plan device thread K s) {b : Buffer}
    (hb : b ∈ (s.share plan device).buffers) : (s.heap device).InBounds b.address b.size := by
  obtain ⟨-, hbase, hbound⟩ := h.placed b hb
  exact ⟨hbase, by omega⟩

theorem elsewhere (h : Sequential plan device thread K s) {b b' : Buffer}
    (hb : b ∈ (s.share plan device).buffers) (hb' : b' ∈ (s.share plan device).buffers)
    (hne : b ≠ b') : b.address + b.size ≤ b'.address ∨ b'.address + b'.size ≤ b.address := by
  have hapart : b.Apart b' := h.apart.forall hb hb' hne
  unfold Buffer.Apart at hapart
  omega

/-- A copy inside a buffer starts at an address. -/
theorem spans (h : Sequential plan device thread K s) {b : Buffer}
    (hb : b ∈ (s.share plan device).buffers) (hfit : ¬b.size < offset + length) :
    b.Spans offset length := by
  obtain ⟨hbase, hbound⟩ := h.inBounds hb
  have hused := h.used
  refine ⟨Nat.not_lt.1 hfit, ?_⟩
  have hword : heapBase + Nat.pow 2 63 ≤ Nat.pow 2 64 := by decide
  unfold Heap.used at hused
  omega

theorem setSinks (h : Sequential plan device thread K s) (sinks : Array (List UInt8)) :
    Sequential plan device thread K (s.setSinks device sinks) :=
  ⟨h.used, h.unframed, h.sound, h.placed, h.apart, h.holds, h.blank⟩

variable (h : Sequential plan device thread K s)

include h

/-- The memory keeps its extent and the plan its buffers. -/
theorem keep (hextent : (s.heap device).SameExtent (s'.heap device))
    (hframes : (s'.share plan device).frames = (s.share plan device).frames)
    (hbuffers : (s'.share plan device).buffers = (s.share plan device).buffers)
    (hsound : ∀ x ∈ s'.pending plan device thread, x.Sound (s.heap device))
    (hholds : ∀ b ∈ (s.share plan device).buffers, s'.contents plan device thread b = K' b)
    (hblank : ∀ b, b ∉ (s.share plan device).buffers → K' b = K b) :
    Sequential plan device thread K' s' := by
  refine ⟨hextent.used.trans_lt h.used, hframes ▸ h.unframed,
    fun x hx => (hsound x hx).mono hextent.used.ge, ?_, hbuffers ▸ h.apart, hbuffers ▸ hholds, ?_⟩
  · intro b hb
    rw [hbuffers] at hb
    exact (h.placed b hb).imp_right (·.mono hextent.used.ge)
  · intro b hb
    rw [hbuffers] at hb
    exact (hblank b hb).trans (h.blank b hb)

/-- Transfers are recorded. -/
theorem entered (he : Entered plan device thread desc cs index b w s s')
    (hcs : ∀ x ∈ cs, x.Sound (s.heap device))
    (hholds : ∀ b ∈ (s.share plan device).buffers, (((s.heap device).replay
      (s.pending plan device thread)).replay cs).span b.address b.size = K' b)
    (hblank : ∀ b, b ∉ (s.share plan device).buffers → K' b = K b) :
    Sequential plan device thread K' s' := by
  refine h.keep (he.heap_eq ▸ .refl _) (by rw [he.share_eq]) (by rw [he.share_eq]) ?_
    (fun x hx => ?_)
    hblank
  · rw [he.pending_eq]
    exact forall_mem_append.2 ⟨h.sound, forall_mem_cons.2
      ⟨trivial, forall_mem_append.2 ⟨hcs, forall_mem_singleton.2 trivial⟩⟩⟩
  · have hstamps : ∀ heap : Heap, heap.replay (.stamp b.start :: (cs ++ [.stamp b.stop])) =
        heap.replay cs := fun heap => heap.replay_append cs _
    unfold contents
    rw [he.heap_eq, he.pending_eq, Heap.replay_append, hstamps]
    exact hholds x hx

theorem noted (he : Entered plan device thread desc cs index b w s s')
    (hcs : ∀ x ∈ cs, x.Sound (s.heap device)) (hreplay : ∀ heap : Heap, heap.replay cs = heap) :
    Sequential plan device thread K s' := by
  refine h.entered he hcs (fun x hx => ?_) fun _ _ => rfl
  rw [hreplay]
  exact h.holds x hx

theorem copied {data : List UInt8}
    (he :
      Entered plan device thread desc [.write (buffer.address + offset) data, .barrier] index b w
      s s')
    (hbuffer : buffer ∈ (s.share plan device).buffers) (hfit : offset + data.length ≤ buffer.size) :
    Sequential plan device thread
      (fun x => if buffer = x then splice (K x) offset data else K x) s' := by
  have hin := h.inBounds hbuffer
  have hpart : (s.heap device).InBounds (buffer.address + offset) data.length := by
    obtain ⟨hbase, hbound⟩ := hin
    exact ⟨by omega, by omega⟩
  refine h.entered he ?_ (fun x hx => ?_) fun x hx => ?_
  · exact forall_mem_cons.2 ⟨hpart, forall_mem_singleton.2 trivial⟩
  · show (Heap.put _ (buffer.address + offset) data).span x.address x.size = _
    split
    · next heq =>
      subst heq
      rw [Heap.span_put_inside (hin.replay _) hfit]
      exact congrArg (splice · offset data) (h.holds buffer hx)
    · next hne =>
      have helsewhere := h.elsewhere hx hbuffer (.symm hne)
      rw [Heap.span_put_apart (hpart.replay _) (h.inBounds hx).1 (by omega)]
      exact h.holds x hx
  · rw [if_neg]
    rintro rfl
    exact hx hbuffer

/-- A new buffer. -/
theorem allocated {a : Nat} (halloc : (s.heap device).allocate size = .ok (a, s'.heap device))
    (hshare : s'.share plan device =
      { s.share plan device with buffers := (s.share plan device).buffers ++ [⟨device, a, size⟩] })
    (hpending : s'.pending plan device thread = s.pending plan device thread) :
    Sequential plan device thread K s' := by
  obtain ⟨hgrows, hroom, haddress, hbefore, hafter, -⟩ := Heap.allocate_grows halloc
  have hreplay := hgrows.replay h.sound
  have hextent := (s.heap device).replay_extent (s.pending plan device thread)
  have hextent' := (s'.heap device).replay_extent (s.pending plan device thread)
  have hnew : ∀ b ∈ (s.share plan device).buffers, b.address + max b.size 1 ≤ a := by
    intro b hb
    obtain ⟨-, hbase, hbound⟩ := h.placed b hb
    have hbound : b.address - heapBase + max b.size 1 ≤ (s.heap device).used := hbound
    omega
  have hfresh : (⟨device, a, size⟩ : Buffer) ∉ (s.share plan device).buffers := by
    intro hmem
    have hlt := hnew _ hmem
    dsimp only at hlt
    omega
  refine ⟨hafter.trans_lt hroom.2, ?_, ?_, ?_, ?_, ?_, ?_⟩
  · rw [hshare]
    exact h.unframed
  · intro x hx
    rw [hpending] at hx
    exact (h.sound x hx).mono hgrows.used
  · intro b hb
    rw [hshare] at hb
    rcases mem_append.1 hb with hb | hb
    · exact (h.placed b hb).imp_right (·.mono hgrows.used)
    · cases mem_singleton.1 hb
      have hbound : a - heapBase + max size 1 ≤ (s'.heap device).used := by omega
      exact ⟨rfl, by show heapBase ≤ a; omega, hbound⟩
  · rw [hshare]
    refine pairwise_append.2 ⟨h.apart, pairwise_singleton _ _, fun b hb b' hb' => ?_⟩
    cases mem_singleton.1 hb'
    exact .inl (hnew b hb)
  · intro b hb
    rw [hshare] at hb
    unfold contents
    rw [hpending]
    rcases mem_append.1 hb with hb | hb
    · rw [hreplay.span_old ((h.inBounds hb).replay _)]
      exact h.holds b hb
    · cases mem_singleton.1 hb
      rw [h.blank _ hfresh]
      refine hreplay.span_new ⟨?_, ?_⟩ ?_
      · show heapBase ≤ a
        omega
      · show a - heapBase + size ≤ (Heap.replay _ _).used
        rw [hextent'.used]
        omega
      · show heapBase + (Heap.replay _ _).used ≤ a
        rw [hextent.used]
        omega
  · intro b hb
    rw [hshare] at hb
    exact h.blank b fun hmem => hb (mem_append_left _ hmem)

end Sequential

/-! ## Flushes -/

/-- What a thread has recorded was run to its end. -/
structure Emptied (plan device thread : Nat) (s s' : Scene) : Prop where
  size : s'.size = s.size
  pending : s'.pending plan device thread = []
  share : s'.share = s.share
  heap : s'.heap device = (s.heap device).replay (s.pending plan device thread)
  sinks : (s'.sinks device).size = (s.sinks device).size
  unread : ∀ cell, (∀ a n, .read a n cell ∉ s.pending plan device thread) →
    (s'.sinks device).getD cell [] = (s.sinks device).getD cell []
  read : ∀ pre a n sink post, s.pending plan device thread = pre ++ .read a n sink :: post →
    sink < (s.sinks device).size → (∀ a n, .read a n sink ∉ post) →
    (s'.sinks device).getD sink [] = ((s.heap device).replay pre).span a n
  taken : ∀ cell, .stamp cell ∈ s.pending plan device thread → s'.stampAt device cell ≠ 0
  kept : ∀ cell, s.stampAt device cell ≠ 0 → s'.stampAt device cell ≠ 0

theorem Ran.emptied (h : Ran plan device thread s none s')
    (hsound : ∀ x ∈ s.pending plan device thread, x.Sound (s.heap device)) :
    Emptied plan device thread s s' := by
  obtain ⟨hd, hcs, hrun⟩ := h
  rename_i d d'
  have hsound' : ∀ x ∈ s.pending plan device thread, x.Sound d.heap := hd.heap ▸ hsound
  have hrunning : d.Running d' := after_of_ok hrun ▸ Operate.executeAll_running _ d
  obtain ⟨d₁, hrun₁, hheap, hunread⟩ := Operate.executeAll_sound hsound'
  cases hrun.symm.trans hrun₁
  have hd' : ((s.setDevice device d').setPending plan device thread []).Shows device d' :=
    ⟨if_pos rfl, if_pos rfl, if_pos rfl, if_pos rfl, if_pos rfl⟩
  refine ⟨rfl, if_pos ⟨rfl, rfl, rfl⟩, rfl, ?_, ?_, ?_, ?_, ?_, ?_⟩
  · rw [hd'.heap, hd.heap, hheap]
  · rw [hd'.sinks, hd.sinks, hrunning.sinks]
  · intro cell hcell
    rw [hd'.sinks, hd.sinks]
    exact hunread cell hcell
  · intro pre a n sink post hpending hsink hlast
    rw [hd.sinks] at hsink
    rw [hpending] at hsound' hrun
    rw [hd'.sinks, hd.heap]
    exact Operate.executeAll_sink hsound' hsink hlast hrun
  · intro cell hmem
    rw [hd'.stampAt]
    exact Operate.executeAll_taken hrun hmem (hcs _ hmem)
  · intro cell hbefore
    rw [hd.stampAt] at hbefore
    rw [hd'.stampAt]
    exact hrunning.taken cell hbefore

variable {K : Buffer → List UInt8}

theorem Sequential.emptied (h : Sequential plan device thread K s)
    (he : Emptied plan device thread s s') : Sequential plan device thread K s' := by
  refine h.keep (he.heap ▸ Heap.replay_extent _ _) (by rw [he.share]) (by rw [he.share])
    (he.pending ▸ nofun) (fun b hb => ?_) fun _ _ => rfl
  unfold contents
  rw [he.heap, he.pending]
  exact h.holds b hb

theorem Emptied.admission (he : Emptied plan device thread s s') :
    s'.admission plan device = s.admission plan device := by
  have hextent := (s.heap device).replay_extent (s.pending plan device thread)
  unfold Scene.admission
  rw [he.share, he.heap, hextent.used, hextent.capacity]

/-! ## Reads -/

/-- A read gives these bytes: it is recorded, and will find them in memory, or they
have arrived. -/
inductive Delivers (plan device thread : Nat) (r : PendingRead) (bytes : List UInt8)
    (s : Scene) : Prop
  | recorded (hdevice : r.device = device) (hsink : r.sink < (s.sinks device).size)
    (pre : List Command) (a n : Nat) (post : List Command)
    (hpending : s.pending plan device thread = pre ++ .read a n r.sink :: post)
    (hstop : .stamp r.brackets.stop ∈ post) (hlast : ∀ a n, .read a n r.sink ∉ post)
    (hbytes : ((s.heap device).replay pre).span a n = bytes)
    (htime : s.stampAt device r.brackets.stop = 0)
  | arrived (hdevice : r.device = device) (hsink : r.sink < (s.sinks device).size)
    (hbytes : (s.sinks device).getD r.sink [] = bytes)
    (hlast : ∀ a n, .read a n r.sink ∉ s.pending plan device thread)
    (htime : s.stampAt device r.brackets.stop ≠ 0)

namespace Delivers

variable {r : PendingRead} {bytes : List UInt8}

variable (h : Delivers plan device thread r bytes s)

include h

theorem sink_lt : r.sink < (s.sinks device).size := by
  cases h with
  | recorded _ hsink | arrived _ hsink => exact hsink

/-- More may be recorded, with no read into the cell; the cell, its time and what its read will find
stay. -/
theorem later {new : List Command} (hsize : (s.sinks device).size ≤ (s'.sinks device).size)
    (hsame : (s'.sinks device).getD r.sink [] = (s.sinks device).getD r.sink [])
    (hpending' : s'.pending plan device thread = s.pending plan device thread ++ new)
    (hnew : ∀ a n, .read a n r.sink ∉ new)
    (hspan : ∀ pre a n post, s.pending plan device thread = pre ++ .read a n r.sink :: post →
      ((s'.heap device).replay pre).span a n = ((s.heap device).replay pre).span a n)
    (htimes : s'.stampAt = s.stampAt) : Delivers plan device thread r bytes s' := by
  have hsink := Nat.lt_of_lt_of_le h.sink_lt hsize
  have hnone : ∀ {cs}, (∀ a n, .read a n r.sink ∉ cs) → ∀ a n, .read a n r.sink ∉ cs ++ new :=
    fun hcs a n hmem => (mem_append.1 hmem).elim (hcs a n) (hnew a n)
  cases h with
  | recorded hdevice _ pre a n post hpending hstop hlast hbytes htime =>
    refine .recorded hdevice hsink pre a n (post ++ new) ?_ (mem_append_left _ hstop) (hnone hlast)
      ((hspan _ _ _ _ hpending).trans hbytes) (htimes ▸ htime)
    rw [hpending', hpending, append_assoc]
    rfl
  | arrived hdevice _ hbytes hlast htime =>
    exact .arrived hdevice hsink (hsame.trans hbytes) (hpending' ▸ hnone hlast) (htimes ▸ htime)

/-- Cells with the same bytes in the one of the read. -/
theorem setSinks {sinks : Array (List UInt8)} (hsize : (s.sinks device).size ≤ sinks.size)
    (hsame : sinks.getD r.sink [] = (s.sinks device).getD r.sink []) :
    Delivers plan device thread r bytes (s.setSinks device sinks) := by
  have hsinks : (s.setSinks device sinks).sinks device = sinks := if_pos rfl
  exact h.later (by rwa [hsinks]) (by rwa [hsinks]) (append_nil _).symm (fun _ _ => not_mem_nil)
    (fun _ _ _ _ _ => rfl) rfl

theorem pushSink :
    Delivers plan device thread r bytes (s.setSinks device ((s.sinks device).push [])) := by
  have hlt := h.sink_lt
  refine h.setSinks ?_ ?_
  · rw [Array.size_push]
    omega
  · rw [Array.getD_eq_getD_getElem?, Array.getD_eq_getD_getElem?, Array.getElem?_push,
      if_neg (by omega)]

/-- More is recorded, with no read into the cell. -/
theorem entered
    (he : Entered plan device thread desc cs index b w s s')
    (hcs : ∀ a n, .read a n r.sink ∉ cs) : Delivers plan device thread r bytes s' := by
  refine h.later (by rw [he.sinks_eq]) (by rw [he.sinks_eq]) he.pending_eq (fun a n hmem => ?_)
    (fun _ _ _ _ _ => by rw [he.heap_eq]) he.stampAt_eq
  simp only [mem_cons, mem_append, reduceCtorEq, false_or, not_mem_nil, or_false] at hmem
  exact hcs a n hmem

/-- Memory grows behind the blocks that are there. -/
theorem grown (hsound : ∀ x ∈ s.pending plan device thread, x.Sound (s.heap device))
    (hgrows : (s.heap device).Grows (s'.heap device)) (hpending' : s'.pending = s.pending)
    (hsinks : s'.sinks = s.sinks) (hstamps : s'.stampAt = s.stampAt) :
    Delivers plan device thread r bytes s' := by
  refine h.later (by rw [hsinks]) (by rw [hsinks]) (by rw [hpending', append_nil])
    (fun _ _ => not_mem_nil) (fun pre a n post hpending => ?_) hstamps
  rw [hpending] at hsound
  have hin : (s.heap device).InBounds a n := hsound _ (mem_append_right _ mem_cons_self)
  exact (hgrows.replay fun x hx => hsound x (mem_append_left _ hx)).span_old (hin.replay pre)

/-- After a flush the time is taken. -/
theorem emptied_time
    (he : Emptied plan device thread s s') : s'.stampAt device r.brackets.stop ≠ 0 := by
  cases h with
  | recorded hdevice hsink pre a n post hpending hstop =>
    refine he.taken _ ?_
    rw [hpending]
    exact mem_append_right _ (mem_cons_of_mem _ hstop)
  | arrived hdevice hsink hbytes hlast htime => exact he.kept _ htime

/-- A flush brings the bytes. -/
theorem emptied (he : Emptied plan device thread s s') :
    Delivers plan device thread r bytes s' := by
  have hnone : ∀ a n, .read a n r.sink ∉ s'.pending plan device thread := by
    intro a n
    rw [he.pending]
    exact not_mem_nil
  have htaken := h.emptied_time he
  cases h with
  | recorded hdevice hsink pre a n post hpending hstop hlast hbytes =>
    refine .arrived hdevice (he.sinks.symm ▸ hsink) ?_ hnone htaken
    rw [he.read pre a n r.sink post hpending hsink hlast]
    exact hbytes
  | arrived hdevice hsink hbytes hlast =>
    refine .arrived hdevice (he.sinks.symm ▸ hsink) ?_ hnone htaken
    rw [he.unread r.sink hlast]
    exact hbytes

end Delivers

/-- A read is recorded with a cell of its own. -/
theorem Sequential.asked (h : Sequential plan device thread K s)
    (he : Entered plan device thread desc
      [.read (buffer.address + offset) length (s.sinks device).size, .barrier] index b w
      (s.setSinks device ((s.sinks device).push [])) s')
    (hbuffer : buffer ∈ (s.share plan device).buffers) (hfit : offset + length ≤ buffer.size) :
    Delivers plan device thread ⟨device, index, b, (s.sinks device).size⟩
      (((K buffer).drop offset).take length) s' := by
  have hsinks : (s.setSinks device ((s.sinks device).push [])).sinks device =
      (s.sinks device).push [] := if_pos rfl
  refine .recorded rfl ?_ (s.pending plan device thread ++ [.stamp b.start])
    (buffer.address + offset) length [.barrier, .stamp b.stop] ?_ ?_ ?_ ?_ ?_
  · rw [he.sinks_eq, hsinks, Array.size_push]
    exact Nat.lt_succ_self _
  · rw [he.pending_eq, append_assoc]
    rfl
  · exact mem_cons_of_mem _ mem_cons_self
  · intro a n hmem
    simp at hmem
  · rw [he.heap_eq]
    have hstamp : ∀ heap : Heap, heap.replay [.stamp b.start] = heap := fun _ => rfl
    have hheap : (s.setSinks device ((s.sinks device).push [])).heap = s.heap := rfl
    rw [Heap.replay_append, Heap.span_part (h.inBounds hbuffer).1 hfit]
    exact congrArg (fun bytes => (bytes.drop offset).take length) (h.holds buffer hbuffer)
  · rw [he.stampAt_eq]
    exact he.stop

end Scene

end KernelForge.Host
