import KernelForge.Proofs.Queues.Contents

/-!
# Transfers call by call

A call that only transfers is accepted, and then has its effect on the buffers, or it is refused,
and then has none (`Context.Outcome`). Which of the two comes can be told from the admission before
the call, and a refusal names its reason (`Operation.Refused`). `Transferring.perform_outcome` says
so of every operation; a flush among them never fails.

Launches are outside: their commands may write anywhere in memory.
-/

namespace KernelForge.Host

open List hiding get
open Device (Info Operate Heap splice heapBase)
open Control (takeBytes)
open Control (enqueueRead flush)

variable {e : Error} {size length offset : Nat}

/-! ## Operations -/

namespace Operation

/-- What a thread does that only transfers: it takes buffers, copies to and from the
buffers there are, records barriers and flushes. -/
def Transfers (plan device thread : Nat) (buffers : List Buffer) : Operation → Prop
  | .allocate p i _ => p = plan ∧ i = device
  | .enqueueWrite p t b _ _ | .write p t b _ _ => p = plan ∧ t = thread ∧ b ∈ buffers
  | .enqueueRead p t b _ _ | .read p t b _ _ => p = plan ∧ t = thread ∧ b ∈ buffers
  | .barrier p i t _ => p = plan ∧ i = device ∧ t = thread
  | .flush p i t => p = plan ∧ i = device ∧ t = thread
  | _ => False

/-- What an operation puts into a buffer, and from which offset on. -/
def writes (b : Buffer) : Operation → List (Nat × List UInt8)
  | .enqueueWrite _ _ buffer offset data | .write _ _ buffer offset data =>
    if buffer = b then [(offset, data)] else []
  | _ => []

/-- Why an operation that only transfers fails: memory is not granted, or a copy is refused. -/
def Refused (c : Context) (plan device : Nat) : Operation → Error → Prop
  | .allocate _ _ size, e =>
    ∃ fault, (c.scene.heap device).allocate size = .error fault ∧ e = .execution fault
  | _, e => Refusal (c.share plan device).events e

/-- An operation without its flush. -/
def unflushed : Operation → List Operation
  | .write plan thread b offset data => [.enqueueWrite plan thread b offset data]
  | .read plan thread b offset length => [.enqueueRead plan thread b offset length]
  | .flush _ _ _ => []
  | op => [op]

end Operation

/-- Bytes after copies were made in turn. -/
def spliceAll (bytes : List UInt8) (copies : List (Nat × List UInt8)) : List UInt8 :=
  copies.foldl (fun bytes copy => splice bytes copy.1 copy.2) bytes

namespace Context

/-- Whether each operation of a history is a transfer of the thread when its turn comes. -/
def Transfers (plan device thread : Nat) : Context → List Operation → Prop
  | _, [] => True
  | c, op :: ops => op.Transfers plan device thread (c.share plan device).buffers ∧
    Transfers plan device thread (after op.perform c) ops

/-- The copies to a buffer that a history has accepted, in their order. -/
def accepted (b : Buffer) : Context → List Operation → List (Nat × List UInt8)
  | _, [] => []
  | c, op :: ops => (if failure op.perform c = none then op.writes b else []) ++
    accepted b (after op.perform c) ops

/-- The zeros of a new buffer after the copies that a history has accepted. -/
def written (c : Context) (b : Buffer) (ops : List Operation) : List UInt8 :=
  spliceAll (List.replicate b.size 0) (c.accepted b ops)

/-- A thread that has only transferred, and what the buffers hold. -/
structure Transferring (info : Nat → Info) (plan device thread : Nat) (K : Buffer → List UInt8)
    (c : Context) : Prop where
  own : OwnLists info c
  within : device < c.devices.size
  scene : c.scene.Sequential plan device thread K

/-- Reads deliver later what they deliver now. -/
def Onward (plan device thread : Nat) (c c' : Context) : Prop :=
  ∀ r bytes, c.scene.Delivers plan device thread r bytes →
    c'.scene.Delivers plan device thread r bytes

/-- A transfer is accepted and has its effect on the buffers, or it is refused and has
none. -/
inductive Outcome (info : Nat → Info) (plan device thread : Nat) (c : Context) (R : Error → Prop)
    (admitted : Option Admission) (K K' : Buffer → List UInt8) {α : Type} :
    EStateM.Result Error Context α → Prop
  | accepted {a : α} {c' : Context} (hnext : Transferring info plan device thread K' c')
    (honward : Onward plan device thread c c')
    (hadmitted : admitted = some (c'.scene.admission plan device)) :
    Outcome info plan device thread c R admitted K K' (.ok a c')
  | refused {e : Error} {c' : Context} (hnext : Transferring info plan device thread K c')
    (honward : Onward plan device thread c c') (hrefusal : R e) (hadmitted : admitted = none)
    (hadmission : c'.scene.admission plan device = c.scene.admission plan device)
    (hheap : c'.scene.heap device = c.scene.heap device)
    (hpending : c'.pending plan device thread = c.pending plan device thread) :
    Outcome info plan device thread c R admitted K K' (.error e c')

variable {info : Nat → Info} {plan device thread : Nat} {K K' : Buffer → List UInt8}
  {c c' : Context} {op : Operation} {R : Error → Prop}

namespace Transferring

variable (h : Transferring info plan device thread K c)

include h

theorem get : ∃ d, c.devices[device]? = some d := ⟨_, Array.getElem?_eq_getElem h.within⟩

/-- A call that fails and leaves what can be seen. -/
theorem refused {α : Type}
    {admitted : Option Admission} (hown : OwnLists info c') (hscene : c'.scene = c.scene)
    (hrefusal : R e) (hadmitted : admitted = none) :
    Outcome info plan device thread c R admitted K K'
      (.error e c' : EStateM.Result Error Context α) := by
  have hsize : c'.devices.size = c.devices.size := congrArg Scene.size hscene
  refine .refused ⟨hown, hsize ▸ h.within, hscene ▸ h.scene⟩
    (fun r bytes hr => hscene ▸ hr) hrefusal
    hadmitted (by rw [hscene]) (by rw [hscene]) ?_
  exact congrArg (fun s : Scene => s.pending plan device thread) hscene

theorem next (hown : OwnLists info c') (hsize : c'.scene.size = c.scene.size)
    (hscene : c'.scene.Sequential plan device thread K') :
    Transferring info plan device thread K' c' := by
  refine ⟨hown, ?_, hscene⟩
  show device < c'.scene.size
  rw [hsize]
  exact h.within

/-- A buffer is taken. -/
theorem allocate_outcome (size : Nat) :
    Outcome info plan device thread c ((Operation.allocate plan device size).Refused c plan device)
      ((c.scene.admission plan device).allocate device size) K K
      (Control.allocate plan device size c) := by
  obtain ⟨d, hd⟩ := h.get
  have hadmitted : (c.scene.admission plan device).allocate device size =
      if (c.scene.heap device).HasRoom size then
        some { c.scene.admission plan device with
          buffers := (c.share plan device).buffers ++
            [⟨device, heapBase + (c.scene.heap device).nextOffset, size⟩]
          used := (c.scene.heap device).nextStop size }
      else none := rfl
  rw [hadmitted]
  rcases Step.newBuffer_run h.own hd plan size with
    ⟨fault, herr, hfault⟩ | ⟨a, heap, c', hok, hown, halloc, hscene⟩
  · rw [herr]
    refine h.refused h.own rfl ⟨fault, hfault, rfl⟩ (if_neg fun hroom => ?_)
    rcases (c.scene.heap device).allocate_cases size with ⟨hfull, -⟩ | ⟨-, hok⟩
    · exact hfull hroom
    · cases hok.symm.trans hfault
  · obtain ⟨hgrows, hroom, haddress, -, hafter, hcapacity⟩ := Heap.allocate_grows halloc
    have hheap : c'.scene.heap device = heap := by
      rw [hscene]
      exact if_pos rfl
    have hshare : c'.scene.share plan device = { c.share plan device with
        buffers := (c.share plan device).buffers ++ [⟨device, a, size⟩] } := by
      rw [hscene]
      exact if_pos ⟨rfl, rfl⟩
    rw [hok]
    refine .accepted (h.next hown (hscene ▸ rfl) (h.scene.allocated (hheap.symm ▸ halloc) hshare
      (hscene ▸ rfl))) (fun r bytes hr => ?_) ?_
    · exact hr.grown h.scene.sound (hheap.symm ▸ hgrows) (hscene ▸ rfl) (hscene ▸ rfl)
        (hscene ▸ rfl)
    · rw [if_pos hroom]
      unfold Scene.admission
      rw [hshare, hheap, hafter, hcapacity, haddress]
      rfl

theorem barrier_outcome (desc : Descriptor) :
    Outcome info plan device thread c (Refusal (c.share plan device).events)
      (c.scene.admission plan device).enter K K
      (Control.barrier plan device thread desc c) := by
  obtain ⟨d, hd⟩ := h.get
  rcases Step.barrier_run h.own hd plan thread desc with
    ⟨e, c', herr, hown, hscene, hfull⟩ | ⟨index, b, w, c', hok, hown, he⟩
  · rw [herr]
    exact h.refused hown hscene (.window hfull) (Scene.enter_none hfull)
  · rw [hok]
    refine .accepted (h.next hown he.size_eq (h.scene.noted he ?_ fun _ => rfl)) ?_
      (Scene.enter_some he)
    · simp [Device.Command.Sound]
    · intro r bytes hr
      refine hr.entered he fun a n hmem => ?_
      simp at hmem

/-- A copy to a buffer is recorded. -/
theorem enqueueWrite_outcome {b : Buffer}
    (hb : b ∈ (c.share plan device).buffers) (offset : Nat) (data : List UInt8) :
    Outcome info plan device thread c (Refusal (c.share plan device).events)
      ((c.scene.admission plan device).transfer b offset data.length) K
      (fun x => if b = x then splice (K x) offset data else K x)
      (Control.enqueueWrite plan thread b offset data c) := by
  obtain ⟨d, hd⟩ := h.get
  obtain ⟨rfl, -⟩ := h.scene.placed b hb
  unfold Admission.transfer
  by_cases hover : b.size < offset + data.length
  · have herr : Control.enqueueWrite plan thread b offset data c = .error _ c :=
      bind_of_error (Step.transferStart_outside hover c)
    rw [herr]
    exact h.refused h.own rfl (.overrun _ _ _) (if_pos hover)
  · rw [if_neg hover]
    rcases Step.enqueueWrite_run h.own hd (h.scene.spans hb hover) plan thread with
      ⟨e, c', herr, hown, hscene, hfull⟩ | ⟨index, b', w, c', hok, hown, he⟩
    · rw [herr]
      exact h.refused hown hscene (.window hfull) (Scene.enter_none hfull)
    · rw [hok]
      refine .accepted (h.next hown he.size_eq (h.scene.copied he hb (by omega))) ?_
        (Scene.enter_some he)
      intro r bytes hr
      refine hr.entered he fun a n hmem => ?_
      simp at hmem

/-- A copy from a buffer is recorded. -/
theorem enqueueRead_outcome {b : Buffer}
    (hb : b ∈ (c.share plan device).buffers) (offset length : Nat) :
    Outcome info plan device thread c (Refusal (c.share plan device).events)
      ((c.scene.admission plan device).transfer b offset length) K K
      (enqueueRead plan thread b offset length c) ∧
    ∀ r c', enqueueRead plan thread b offset length c = .ok r c' →
      r.sink = (c.scene.sinks device).size ∧
      c'.scene.Delivers plan device thread r (((K b).drop offset).take length) := by
  obtain ⟨d, hd⟩ := h.get
  obtain ⟨rfl, -⟩ := h.scene.placed b hb
  unfold Admission.transfer
  by_cases hover : b.size < offset + length
  · have herr : enqueueRead plan thread b offset length c = .error _ c :=
      bind_of_error (Step.transferStart_outside hover c)
    rw [herr]
    exact ⟨h.refused h.own rfl (.overrun _ _ _) (if_pos hover), nofun⟩
  · rw [if_neg hover]
    rcases Step.enqueueRead_run h.own hd (h.scene.spans hb hover) plan thread with
      ⟨e, c', herr, hown, hscene, hfull⟩ | ⟨index, b', w, c', hok, hown, he⟩
    · rw [herr]
      refine ⟨.refused (h.next hown (hscene ▸ rfl) (hscene ▸ h.scene.setSinks _))
        (fun r bytes hr => hscene ▸ hr.pushSink) (.window hfull) (Scene.enter_none hfull)
        (hscene ▸ rfl) (hscene ▸ rfl) ?_, nofun⟩
      exact congrArg (fun s : Scene => s.pending plan b.device thread) hscene
    · have hin := h.scene.inBounds hb
      have hsound : (c.scene.heap b.device).InBounds (b.address + offset) length := by
        obtain ⟨hbase, hbound⟩ := hin
        exact ⟨by omega, by omega⟩
      have hadmitted := Scene.enter_some he
      rw [hok]
      refine ⟨.accepted (h.next hown he.size_eq ((h.scene.setSinks _).noted he ?_ fun _ => rfl)) ?_
        hadmitted, ?_⟩
      · exact forall_mem_cons.2 ⟨hsound, forall_mem_singleton.2 trivial⟩
      · intro r bytes hr
        have hlt := hr.sink_lt
        refine hr.pushSink.entered he fun a n hmem => ?_
        rcases mem_cons.1 hmem with heq | hmem
        · obtain ⟨-, -, hsame⟩ := Device.Command.read.inj heq
          omega
        · simp at hmem
      · intro r c₁ hsame
        cases hsame
        exact ⟨rfl, h.scene.asked he hb (by omega)⟩

/-- A flush does not fail, and leaves what the buffers hold. -/
theorem flush_next :
    ∃ c', flush plan device thread c = .ok () c' ∧
      Transferring info plan device thread K c' ∧
      Scene.Emptied plan device thread c.scene c'.scene := by
  obtain ⟨d, hd⟩ := h.get
  obtain ⟨hown, hflushed⟩ := Control.flush_run h.own hd plan thread
  have hemptied : failure (flush plan device thread) c = none ∧
      Scene.Emptied plan device thread c.scene
        (after (flush plan device thread) c).scene := by
    generalize failure (flush plan device thread) c = r at hflushed
    generalize (after (flush plan device thread) c).scene = s' at hflushed
    cases hflushed with
    | stopped hran =>
      cases hran with
      | stopped hd' hcs hrun =>
        obtain ⟨d', hok, -⟩ := Operate.executeAll_sound (hd'.heap ▸ h.scene.sound)
        cases hok.symm.trans hrun
    | unframed hran => exact ⟨rfl, hran.emptied h.scene.sound⟩
    | freed hran hf =>
      have hshare := (hran.emptied h.scene.sound).share
      rw [hshare, h.scene.unframed] at hf
      cases hf
  obtain ⟨_, hok⟩ := ok_of_failure hemptied.1
  exact ⟨_, hok, h.next hown hemptied.2.size (h.scene.emptied hemptied.2), hemptied.2⟩

end Transferring

/-- A read that was flushed gives its bytes; one that was not gives none. -/
theorem takeBytes_run {r : PendingRead} {bytes : List UInt8} (hown : OwnLists info c)
    (hr : c.scene.Delivers plan device thread r bytes) :
    (c.scene.stampAt device r.brackets.stop = 0 ∧ ∃ e, takeBytes r c = .error e c) ∨
    ∃ c', takeBytes r c = .ok bytes c' ∧ OwnLists info c' ∧
      c'.scene = c.scene.setSinks device ((c.scene.sinks device).setIfInBounds r.sink []) := by
  have htake := Step.takeBytes_eq r c
  cases hr with
  | recorded hdevice hsink pre a n post hpending hstop hlast hbytes htime =>
    subst hdevice
    have hnot : (c.timers r.device r.brackets).isComplete = false := bne_eq_false_iff_eq.2 htime
    rw [hnot] at htake
    exact .inl ⟨htime, _, htake⟩
  | arrived hdevice hsink hbytes hlast htime =>
    subst hdevice
    have hdone : (c.timers r.device r.brackets).isComplete = true := bne_iff_ne.2 htime
    rw [hdone, if_pos rfl] at htake
    cases hd : c.devices[r.device]? with
    | none =>
      have hnone : c.scene.sinks r.device = #[] := by
        show (c.devices.getD r.device {}).sinks = #[]
        rw [Array.getD_eq_getD_getElem?, hd]
        rfl
      rw [hnone] at hsink
      exact absurd hsink (Nat.not_lt_zero _)
    | some d =>
      have hsinks := (scene_shows hd).sinks
      have hrun : Operate.takeSink r.sink d =
          .ok (d.sinkAt r.sink) { d with sinks := d.sinks.setIfInBounds r.sink [] } := rfl
      obtain ⟨hown', hscene⟩ := hown.setSinks hd (Nat.le_of_eq Array.size_setIfInBounds.symm)
      rw [Control.onDevice_ok hd hrun] at htake
      rw [hsinks] at hbytes ⊢
      exact .inr ⟨_, htake.trans (by rw [← hbytes]; rfl), hown', hscene⟩

namespace Outcome

variable {admitted : Option Admission} {α β : Type} {x : Control α}

variable (hx : Outcome info plan device thread c R admitted K K' (x c))

include hx

/-- What follows a call that was accepted and does not fail. -/
theorem bind {f : α → Control β}
    (hf : ∀ a c', x c = .ok a c' → Transferring info plan device thread K' c' →
      Onward plan device thread c c' → ∃ b c'', f a c' = .ok b c'' ∧
        Transferring info plan device thread K' c'' ∧ Onward plan device thread c c'' ∧
        c''.scene.admission plan device = c'.scene.admission plan device) :
    Outcome info plan device thread c R admitted K K' ((x >>= f) c) := by
  show Outcome info plan device thread c R admitted K K' (EStateM.bind x f c)
  unfold EStateM.bind
  cases hrun : x c with
  | ok a c' =>
    rw [hrun] at hx
    cases hx with
    | accepted hnext honward hadmitted =>
      obtain ⟨b, c'', hf', hnext', honward', hsame⟩ := hf a c' hrun hnext honward
      dsimp only
      rw [hf']
      exact .accepted hnext' honward' (hsame ▸ hadmitted)
  | error =>
    rw [hrun] at hx
    cases hx with
    | refused hnext honward hrefusal hadmitted hadmission hheap hpending =>
      exact .refused hnext honward hrefusal hadmitted hadmission hheap hpending

theorem discard :
    Outcome info plan device thread c R admitted K K' ((do let _ ← x : Control Unit) c) :=
  hx.bind fun _ c' _ hnext honward => ⟨(), c', rfl, hnext, honward, rfl⟩

/-- What a call leaves. -/
theorem after :
    Transferring info plan device thread (if failure x c = none then K' else K) (after x c) ∧
      Onward plan device thread c (after x c) ∧
      (failure x c = none ↔ admitted.isSome) ∧
      (after x c).scene.admission plan device = admitted.getD (c.scene.admission plan device) := by
  cases hrun : x c with
  | ok =>
    rw [hrun] at hx
    cases hx with
    | accepted hnext honward hadmitted =>
      rw [after_of_ok hrun, failure_of_ok hrun, hadmitted]
      exact ⟨hnext, honward, ⟨fun _ => rfl, fun _ => rfl⟩, rfl⟩
  | error =>
    rw [hrun] at hx
    cases hx with
    | refused hnext honward hrefusal hadmitted hadmission =>
      rw [after_of_error hrun, failure_of_error hrun, hadmitted]
      exact ⟨hnext, honward, ⟨nofun, nofun⟩, hadmission⟩

/-- A call that fails says why, and changes neither the memory nor what is recorded. -/
theorem refusal (he : failure x c = some e) :
    R e ∧
      (KernelForge.after x c).scene.heap device = c.scene.heap device ∧
      (KernelForge.after x c).pending plan device thread = c.pending plan device thread := by
  cases hrun : x c with
  | ok =>
    rw [failure_of_ok hrun] at he
    cases he
  | error =>
    rw [failure_of_error hrun] at he
    cases he
    rw [hrun] at hx
    cases hx with
    | refused hnext honward hrefusal hadmitted hadmission hheap hpending =>
      rw [after_of_error hrun]
      exact ⟨hrefusal, hheap, hpending⟩

end Outcome

namespace Transferring

/-- A flush after a call that was accepted. -/
theorem flush_onward {α : Type} {x : Control α} {admitted : Option Admission}
    (hx : Outcome info plan device thread c R admitted K K' (x c)) :
    Outcome info plan device thread c R admitted K K' ((do
      let a ← x
      flush plan device thread
      return a : Control α) c) := by
  refine hx.bind fun a c' _ hnext honward => ?_
  obtain ⟨c'', hflush, hnext', hemptied⟩ := hnext.flush_next
  refine ⟨a, c'', ?_, hnext', fun r bytes hr => (honward r bytes hr).emptied hemptied,
    hemptied.admission⟩
  exact bind_of_ok hflush

/-- A copy from a buffer gives what the buffer holds. -/
theorem read_outcome (h : Transferring info plan device thread K c) {b : Buffer}
    (hb : b ∈ (c.share plan device).buffers) (offset length : Nat) :
    Outcome info plan device thread c (Refusal (c.share plan device).events)
      ((c.scene.admission plan device).transfer b offset length) K K
      (Control.read plan thread b offset length c) ∧
    ∀ bytes c', Control.read plan thread b offset length c = .ok bytes c' →
      bytes = ((K b).drop offset).take length := by
  obtain ⟨hdevice, -⟩ := h.scene.placed b hb
  obtain ⟨houtcome, hasked⟩ := h.enqueueRead_outcome hb offset length
  -- once the read is recorded, it is flushed and its bytes are taken
  have hrest : ∀ r c₁, enqueueRead plan thread b offset length c = .ok r c₁ →
      Transferring info plan device thread K c₁ → Onward plan device thread c c₁ →
      ∃ c₂ c₃, flush plan b.device thread c₁ = .ok () c₂ ∧
        takeBytes r c₂ = .ok (((K b).drop offset).take length) c₃ ∧
        Transferring info plan device thread K c₃ ∧ Onward plan device thread c c₃ ∧
        c₃.scene.admission plan device = c₁.scene.admission plan device := by
    intro r c₁ hok hnext honward
    obtain ⟨hsink, hdelivers⟩ := hasked r c₁ hok
    obtain ⟨c₂, hflush, hnext₂, hemptied⟩ := hnext.flush_next
    have hdelivers₂ := hdelivers.emptied hemptied
    rcases takeBytes_run hnext₂.own hdelivers₂ with ⟨htime, -⟩ | ⟨c₃, htake, hown₃, hscene₃⟩
    · exact absurd htime (hdelivers.emptied_time hemptied)
    · refine ⟨c₂, c₃, hdevice.symm ▸ hflush, htake,
        hnext₂.next hown₃ (hscene₃ ▸ rfl) (hscene₃ ▸ hnext₂.scene.setSinks _), ?_, ?_⟩
      · intro r' bytes hr'
        have hlt := hr'.sink_lt
        have hr₂ := (honward r' bytes hr').emptied hemptied
        rw [hscene₃]
        refine hr₂.setSinks (Nat.le_of_eq Array.size_setIfInBounds.symm) ?_
        rw [Array.getD_eq_getD_getElem?, Array.getD_eq_getD_getElem?,
          Array.getElem?_setIfInBounds_ne (by omega)]
      · rw [hscene₃]
        exact hemptied.admission
  refine ⟨houtcome.bind fun r c₁ hok hnext honward => ?_, fun bytes c' hread => ?_⟩
  · obtain ⟨c₂, c₃, hflush, htake, hnext₃, honward₃, hsame⟩ := hrest r c₁ hok hnext honward
    refine ⟨((K b).drop offset).take length, c₃, ?_, hnext₃, honward₃, hsame⟩
    exact (bind_of_ok hflush).trans htake
  · obtain ⟨r, c₁, hok, hread⟩ := bind_ok.1 hread
    obtain ⟨_, c₂, hflush, hread⟩ := bind_ok.1 hread
    rw [hok] at houtcome
    cases houtcome with
    | accepted hnext honward =>
      obtain ⟨c₂', c₃, hflush', htake, -⟩ := hrest r c₁ hok hnext honward
      cases hflush.symm.trans hflush'
      cases hread.symm.trans htake
      rfl

/-- Every transfer is accepted and has its effect on the buffers, or refused. -/
theorem perform_outcome (h : Transferring info plan device thread K c)
    (hop : op.Transfers plan device thread (c.share plan device).buffers) :
    Outcome info plan device thread c (op.Refused c plan device)
      ((c.scene.admission plan device).accept op) K
      (fun b => spliceAll (K b) (op.writes b)) (op.perform c) := by
  have hwrites : ∀ (b : Buffer) (offset : Nat) (data : List UInt8),
      (fun x => if b = x then splice (K x) offset data else K x) =
        fun x => spliceAll (K x) (if b = x then [(offset, data)] else []) := by
    intro b offset data
    funext x
    split <;> rfl
  cases op with
  | allocate =>
    obtain ⟨rfl, rfl⟩ := hop
    exact (h.allocate_outcome _).discard
  | enqueueWrite p t b offset data =>
    obtain ⟨rfl, rfl, hb⟩ := hop
    have hcopy := h.enqueueWrite_outcome hb offset data
    rw [hwrites] at hcopy
    exact hcopy.discard
  | write p t b offset data =>
    obtain ⟨rfl, rfl, hb⟩ := hop
    obtain ⟨rfl, -⟩ := h.scene.placed b hb
    have hcopy := flush_onward (h.enqueueWrite_outcome hb offset data)
    rw [hwrites] at hcopy
    exact hcopy.discard
  | enqueueRead p t b offset length =>
    obtain ⟨rfl, rfl, hb⟩ := hop
    exact (h.enqueueRead_outcome hb offset length).1.discard
  | read p t b offset length =>
    obtain ⟨rfl, rfl, hb⟩ := hop
    exact (h.read_outcome hb offset length).1.discard
  | barrier p i t desc =>
    obtain ⟨rfl, rfl, rfl⟩ := hop
    exact (h.barrier_outcome desc).discard
  | flush p i t =>
    obtain ⟨rfl, rfl, rfl⟩ := hop
    obtain ⟨c', hflush, hnext, hemptied⟩ := h.flush_next
    show Outcome info p i t c _ _ K K (flush p i t c)
    rw [hflush]
    exact .accepted hnext (fun r bytes hr => hr.emptied hemptied)
      (congrArg some hemptied.admission.symm)
  | _ => exact absurd hop id

end Transferring

end Context

end KernelForge.Host
