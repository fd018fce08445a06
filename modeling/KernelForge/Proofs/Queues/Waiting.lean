import KernelForge.Proofs.Queues.Effects

/-!
# What a thread has waited for is done

An event that has not stopped waits for its timestamp in the list of the thread that recorded it.
The timestamp is **lost** when it is in neither place: it was not taken, and nothing will take it.
Only a queue that is destroyed with commands in it, and a flush that fails, lose a timestamp, so
these are the only ways in which a wait can succeed and leave an event that has not stopped.
-/

namespace KernelForge.Host

open List
open Device (Info Simulator Command Operate Heap Kernel)

variable {info : Nat → Info} {c : Context} {plan device thread : Nat} {b : Brackets} {index : Nat}

/-- Whether a step that records or runs commands is one of a thread. -/
def Step.By (thread : Nat) : Step → Prop
  | .queue _ _ t => t = thread
  | .barrier _ _ t _ => t = thread
  | .enqueueWrite _ t _ _ _ => t = thread
  | .enqueueRead _ t _ _ _ => t = thread
  | .launch _ _ t _ _ _ => t = thread
  | .flush _ _ t => t = thread
  | .cleanupQueue _ _ t => t = thread
  | _ => True

/-- Whether an operation that records or runs commands is one of a thread. -/
def Operation.By (thread : Nat) : Operation → Prop
  | .queue _ _ t => t = thread
  | .barrier _ _ t _ => t = thread
  | .upload _ _ t _ _ => t = thread
  | .enqueueWrite _ t _ _ _ => t = thread
  | .enqueueRead _ t _ _ _ => t = thread
  | .write _ t _ _ _ => t = thread
  | .read _ t _ _ _ => t = thread
  | .launch _ _ t _ _ _ => t = thread
  | .flush _ _ t => t = thread
  | .wait _ _ t _ => t = thread
  | .cleanupQueue _ _ t => t = thread
  | _ => True

namespace Scene

variable {s s' : Scene}

/-- An event that a plan has on a device has not stopped, and the thread has no command
that would stop it. -/
def Lost (s : Scene) (plan device thread : Nat) (b : Brackets) : Prop :=
  (∃ index desc, (s.share plan device).events.event index = .ok (desc, b)) ∧
    s.stampAt device b.stop = 0 ∧ .stamp b.stop ∉ s.pending plan device thread

/-! ## Changes that lose nothing -/

variable {i p t : Nat}

theorem lost_setShare {held : Share} (h : (s.setShare p i held).Lost plan device thread b)
    (hevents : ∀ j e, held.events.event j = .ok e → (s.share p i).events.event j = .ok e) :
    s.Lost plan device thread b := by
  obtain ⟨⟨index, desc, hevent⟩, hstop, hpending⟩ := h
  refine ⟨⟨index, desc, ?_⟩, hstop, hpending⟩
  have hheld : (if p = plan ∧ i = device then held else s.share plan device).events.event index =
    .ok (desc, b) := hevent
  split at hheld
  · next heq => rw [← heq.1, ← heq.2]; exact hevents _ _ hheld
  · exact hheld

theorem lost_setHeap {heap : Heap} (h : (s.setHeap i heap).Lost plan device thread b) :
    s.Lost plan device thread b := h

theorem lost_setKernels {kernels : Table Nat Kernel}
    (h : (s.setKernels i kernels).Lost plan device thread b) : s.Lost plan device thread b := h

theorem lost_setSinks {sinks : Array (List UInt8)}
    (h : (s.setSinks i sinks).Lost plan device thread b) : s.Lost plan device thread b := h

/-- Work that is recorded with an event brings the timestamp that stops it. -/
theorem lost_entered {desc : Descriptor} {cs : List Command} {b' : Brackets}
    {w : EventWindow Brackets} (hentered : Entered p i thread desc cs index b' w s s')
    (h : s'.Lost plan device thread b) : s.Lost plan device thread b := by
  have hafter := hentered.after
  subst hafter
  obtain ⟨⟨j, desc', hevent⟩, hstop, hpending⟩ := h
  by_cases hhere : p = plan ∧ i = device
  · obtain ⟨rfl, rfl⟩ := hhere
    have hcs : (if p = p ∧ i = i ∧ thread = thread then
        s.pending p i thread ++ (.stamp b'.start :: (cs ++ [.stamp b'.stop]))
      else s.pending p i thread) =
        s.pending p i thread ++ (.stamp b'.start :: (cs ++ [.stamp b'.stop])) :=
      if_pos ⟨rfl, rfl, rfl⟩
    have hnot : .stamp b.stop ∉
        s.pending p i thread ++ (.stamp b'.start :: (cs ++ [.stamp b'.stop])) := hcs ▸ hpending
    have hw : w.event j = .ok (desc', b) := by
      have hshare : (if p = p ∧ i = i then { s.share p i with events := w } else
        s.share p i).events.event j = .ok (desc', b) := hevent
      rwa [if_pos ⟨rfl, rfl⟩] at hshare
    rw [EventWindow.event_register hentered.registered] at hw
    split at hw
    · -- the event is the new one, and its timestamp was just recorded
      cases hw
      exact absurd (by simp) hnot
    · exact ⟨⟨j, desc', hw⟩, hstop, fun hmem => hnot (mem_append_left _ hmem)⟩
  · refine ⟨⟨j, desc', ?_⟩, hstop, fun hmem => hpending ?_⟩
    · have hshare : (if p = plan ∧ i = device then { s.share p i with events := w } else
        s.share plan device).events.event j = .ok (desc', b) := hevent
      rwa [if_neg hhere] at hshare
    · show _ ∈ if p = plan ∧ i = device ∧ thread = thread then _ else s.pending plan device thread
      rw [if_neg fun heq => hhere ⟨heq.1, heq.2.1⟩]
      exact hmem

theorem lost_framed {bytes a : Nat} (hframed : Framed p i t bytes s a s')
    (h : s'.Lost plan device thread b) : s.Lost plan device thread b := by
  cases hframed with
  | kept => exact h
  | grown | first =>
    exact lost_setHeap (lost_setShare h fun _ _ he => he)

variable {r : Option Error}

/-- A run to the end takes every time that was asked for; one of another list takes none back. -/
theorem lost_ran (hran : Ran p i t s r s')
    (hkept : r = none ∨ ¬(p = plan ∧ i = device ∧ t = thread)) (h : s'.Lost plan device thread b) :
    s.Lost plan device thread b := by
  -- both ends of a run show a device that ran commands
  have hrun : ∃ d d' : Simulator, s.Shows i d ∧ (∀ x ∈ s.pending p i t, x.Within d) ∧
      d.Running d' ∧ (r = none → (s.pending p i t).forM Operate.execute d = .ok () d') ∧
      s' = (s.setDevice i d').setPending p i t [] := by
    cases hran with
    | @done d d' hd hcs hrun =>
      exact ⟨d, d', hd, hcs, after_of_ok hrun ▸ Operate.executeAll_running _ d, fun _ => hrun, rfl⟩
    | @stopped d d' e hd hcs hrun =>
      exact ⟨d, d', hd, hcs, after_of_error hrun ▸ Operate.executeAll_running _ d, nofun, rfl⟩
  obtain ⟨d, d', hd, hcs, hrunning, hok, rfl⟩ := hrun
  obtain ⟨hevent, hstop, hpending⟩ := h
  have hstop' : (if i = device then d'.stampAt else s.stampAt device) b.stop = 0 := hstop
  have hpending' : .stamp b.stop ∉ if p = plan ∧ i = device ∧ t = thread then ([] : List Command)
    else s.pending plan device thread := hpending
  have hbefore : s.stampAt device b.stop = 0 := by
    split at hstop'
    · next heq =>
      subst heq
      rw [hd.stampAt]
      exact Classical.byContradiction fun hne => hrunning.taken _ hne hstop'
    · exact hstop'
  refine ⟨hevent, hbefore, fun hmem => ?_⟩
  split at hpending'
  · next heq =>
    obtain ⟨rfl, rfl, rfl⟩ := heq
    rw [if_pos rfl] at hstop'
    have hnone : r = none := hkept.resolve_right fun hne => hne ⟨rfl, rfl, rfl⟩
    exact Operate.executeAll_taken (hok hnone) hmem (hcs _ hmem) hstop'
  · exact hpending' hmem

theorem lost_flushed (hflushed : Flushed p i t s r s')
    (hkept : r = none ∨ ¬(p = plan ∧ i = device ∧ t = thread)) (h : s'.Lost plan device thread b) :
    s.Lost plan device thread b := by
  cases hflushed with
  | stopped hran | unframed hran => exact lost_ran hran hkept h
  | freed hran =>
    exact lost_ran hran (.inl rfl) (lost_setShare (lost_setHeap h) fun _ _ he => he)

theorem lost_shed (hshed : Shed p s s') (h : s'.Lost plan device thread b) :
    s.Lost plan device thread b := by
  obtain ⟨⟨index, desc, hevent⟩, hstop, hpending⟩ := h
  rw [hshed.stampAt] at hstop
  rw [hshed.pending] at hpending
  refine ⟨⟨index, desc, ?_⟩, hstop, hpending⟩
  by_cases hp : plan = p
  · subst hp
    exact hshed.events _ _ _ hevent
  · rwa [hshed.others _ _ hp] at hevent

theorem lost_reset (hreset : Reset p s r s') (h : s'.Lost plan device thread b) :
    s.Lost plan device thread b := by
  cases hreset with
  | stopped hshed => exact lost_shed hshed h
  | @done s₁ held hshed hheld =>
    obtain ⟨⟨index, desc, hevent⟩, hstop, hpending⟩ := h
    have hevent' : (if p = plan then held else s₁.share plan device).events.event index =
      .ok (desc, b) := hevent
    have hpending' : .stamp b.stop ∉ if p = plan then ([] : List Command)
      else s₁.pending plan device thread := hpending
    by_cases hp : p = plan
    · rw [if_pos hp] at hevent'
      exact absurd hevent' (hheld.events _ _)
    · rw [if_neg hp] at hevent' hpending'
      exact lost_shed hshed ⟨⟨index, desc, hevent'⟩, hstop, hpending'⟩

end Scene

/-! ## Steps and operations -/

/-- Of the steps of one thread, only those that destroy a queue or fail to flush it lose a
timestamp. -/
theorem Effect.lost {x : Step} {r : Option Error} {s s' : Scene} (heffect : Effect x r s s')
    (hby : x.By thread) (hclosed : x ≠ .cleanupQueue plan device thread)
    (hflushed : x = .flush plan device thread → r = none) (h : s'.Lost plan device thread b) :
    s.Lost plan device thread b := by
  cases heffect with
  | idle => exact h
  | retained hw | released hw => exact Scene.lost_setShare h fun j e he => hw j ▸ he
  | barrier hentered | written hentered => cases hby; exact Scene.lost_entered hentered h
  | installed => exact Scene.lost_setKernels (Scene.lost_setShare h fun _ _ he => he)
  | notInstalled => exact Scene.lost_setKernels h
  | allocated => exact Scene.lost_setHeap (Scene.lost_setShare h fun _ _ he => he)
  | freed => exact Scene.lost_setShare (Scene.lost_setHeap h) fun _ _ he => he
  | sunk | taken => exact Scene.lost_setSinks h
  | read hentered => cases hby; exact Scene.lost_setSinks (Scene.lost_entered hentered h)
  | framed hframed => exact Scene.lost_framed hframed h
  | launched hkernel hframed hentered =>
    cases hby
    exact Scene.lost_framed hframed (Scene.lost_entered hentered h)
  | @flushed p i t _ _ _ hrun =>
    refine Scene.lost_flushed hrun ?_ h
    by_cases hhere : p = plan ∧ i = device ∧ t = thread
    · obtain ⟨rfl, rfl, rfl⟩ := hhere
      exact .inl (hflushed rfl)
    · exact .inr hhere
  | @closed p i t =>
    -- another queue was destroyed
    have hother : ¬(p = plan ∧ i = device ∧ t = thread) := by
      rintro ⟨rfl, rfl, rfl⟩
      exact hclosed rfl
    obtain ⟨hevent, hstop, hpending⟩ := h
    have hpending' : .stamp b.stop ∉ if p = plan ∧ i = device ∧ t = thread then ([] : List Command)
      else s.pending plan device thread := hpending
    rw [if_neg hother] at hpending'
    exact ⟨hevent, hstop, hpending'⟩
  | reset hreset => exact Scene.lost_reset hreset h

namespace Operation

variable {op : Operation}

theorem Uses.by {x : Step} (h : op.Uses x) (hby : op.By thread) : x.By thread := by
  cases op with
  | install =>
    rcases h with rfl | rfl | ⟨_, rfl⟩
    · trivial
    · trivial
    · trivial
  | installFile =>
    rcases h with rfl | ⟨_, _, rfl⟩
    · trivial
    · trivial
  | installModule =>
    rcases h with rfl | ⟨_, rfl⟩ | ⟨_, _, rfl⟩
    · trivial
    · trivial
    · trivial
  | upload =>
    rcases h with rfl | ⟨_, rfl⟩ | rfl
    · trivial
    · exact hby
    · exact hby
  | write =>
    rcases h with rfl | rfl
    · exact hby
    · exact hby
  | read =>
    rcases h with rfl | rfl | ⟨_, rfl⟩
    · exact hby
    · exact hby
    · trivial
  | _ => cases h; exact hby

theorem uses_cleanupQueue (h : op.Uses (.cleanupQueue plan device thread)) :
    op = .cleanupQueue plan device thread := by
  cases op with
  | cleanupQueue => cases h; rfl
  | _ => simp [Uses] at h

/-- Whether an operation destroys the queue of a thread, or fails and may have failed to
flush it. -/
def Drops (op : Operation) (plan device thread : Nat) (c : Context) : Prop :=
  op = .cleanupQueue plan device thread ∨
    op.Uses (.flush plan device thread) ∧ failure op.perform c ≠ none

/-- One operation of a thread loses nothing unless it drops commands. -/
theorem perform_lost (op : Operation) (hc : OwnLists info c) (hby : op.By thread)
    (hbefore : ¬c.scene.Lost plan device thread b)
    (h : (after op.perform c).scene.Lost plan device thread b) : op.Drops plan device thread c := by
  by_cases hclosed : op = .cleanupQueue plan device thread
  · exact .inl hclosed
  -- while no step has failed nothing is lost, and a step that fails loses something by a flush only
  have hkeeps : KeepsOf (fun c => OwnLists info c ∧ ¬c.scene.Lost plan device thread b)
      (fun c => op.Uses (.flush plan device thread) ∨ ¬c.scene.Lost plan device thread b)
      op.perform := by
    refine perform_keepsOf (fun _ hc => .inr hc.2) fun x hx c hc => ?_
    obtain ⟨hown, heffect⟩ := x.effect c hc.1
    have hne : x ≠ .cleanupQueue plan device thread := by
      rintro rfl
      exact hclosed (uses_cleanupQueue hx)
    refine ⟨fun hok => ⟨hown, fun hl => ?_⟩, fun _ => ?_⟩
    · exact hc.2 (heffect.lost (hx.by hby) hne (fun _ => hok) hl)
    · by_cases hflush : x = .flush plan device thread
      · exact .inl (hflush ▸ hx)
      · exact .inr fun hl => hc.2 (heffect.lost (hx.by hby) hne (fun h => absurd h hflush) hl)
  obtain ⟨hok, hfail⟩ := hkeeps c ⟨hc, hbefore⟩
  have hne : failure op.perform c ≠ none := fun hnone => (hok hnone).2 h
  exact .inr ⟨(hfail hne).resolve_right fun hkept => hkept h, hne⟩

end Operation

namespace Context

theorem Fresh.not_lost (h : c.Fresh info) : ¬c.scene.Lost plan device thread b := by
  rintro ⟨⟨index, desc, hevent⟩, -⟩
  have hevent' : (c.share plan device).events.event index = .ok (desc, b) := hevent
  rw [h.share] at hevent'
  exact c.newShare_blank.events _ _ hevent'

/-- A timestamp that was lost was lost by an operation that dropped it. -/
theorem history_lost (hc : OwnLists info c) (hstart : ¬c.scene.Lost plan device thread b)
    {ops : List Operation} (hops : ∀ op ∈ ops, op.By thread)
    (h : (c.history ops).scene.Lost plan device thread b) :
    ∃ before op rest, ops = before ++ op :: rest ∧
      ¬(c.history before).scene.Lost plan device thread b ∧
      (c.history (before ++ [op])).scene.Lost plan device thread b ∧
      op.Drops plan device thread (c.history before) := by
  obtain ⟨before, op, rest, rfl, hkept, hlost⟩ :=
    history_first (Q := fun c => c.scene.Lost plan device thread b) hstart h
  have hby := hops op (mem_append_right _ mem_cons_self)
  refine ⟨before, op, rest, rfl, hkept, ?_, op.perform_lost (history_own hc before) hby hkept hlost⟩
  rw [history_append]
  exact hlost

end Context

/-! ## Waiting -/

namespace Control

variable {c' : Context} {events : List Nat}

theorem timers_run {t : Timers} (h : timers plan device index c = .ok t c') :
    c' = c ∧ ∃ desc b, (c.share plan device).events.event index = .ok (desc, b) ∧
      t = c.timers device b := by
  obtain ⟨⟨desc, b⟩, c₁, hevent, hrest⟩ := bind_ok.1 h
  have hevent' : (ofExcept ((c.share plan device).events.event index) : Control _) c =
    .ok (desc, b) c₁ := hevent
  obtain ⟨hfound, rfl⟩ := ofExcept_ok.1 hevent'
  cases hrest
  exact ⟨rfl, desc, b, hfound, rfl⟩

/-- Nothing is pending among some events when each of them has stopped. -/
theorem anyPending_false (h : anyPending plan device events c = .ok false c') :
    c' = c ∧ ∀ index ∈ events, ∀ desc b, (c.share plan device).events.event index = .ok (desc, b) →
      (c.timers device b).isComplete = true := by
  induction events with
  | nil =>
    cases h
    exact ⟨rfl, nofun⟩
  | cons index events ih =>
    obtain ⟨t, c₁, htimers, hrest⟩ := bind_ok.1 h
    obtain ⟨rfl, desc, b, hevent, rfl⟩ := timers_run htimers
    split at hrest
    · next hdone =>
      obtain ⟨rfl, hall⟩ := ih hrest
      refine ⟨rfl, fun j hj desc' b' he => ?_⟩
      rcases mem_cons.1 hj with rfl | hj
      · cases hevent.symm.trans he
        exact hdone
      · exact hall j hj desc' b' he
    · cases hrest

theorem anyPending_still {pending : Bool}
    (h : anyPending plan device events c = .ok pending c') : c' = c := by
  have hkeeps : KeepsOf (· = c) (fun _ => True) (anyPending plan device events) :=
    Operation.anyPending_keepsOf (fun _ _ => trivial) events
  exact hkeeps.ofOk rfl h

theorem flush_empties (h : OwnLists info c) (hrun : flush plan device thread c = .ok () c') :
    c'.scene.pending plan device thread = [] := by
  rw [(Step.flush_ok h hrun).pending_if]
  exact if_pos ⟨rfl, rfl, rfl⟩

end Control

namespace Context

open Control (flush wait)

/-- **wait_completes**: when a thread that does all the work has waited for events, each of them has
stopped, unless an operation before dropped the command that stops it: it destroyed the queue of the
thread, or failed on the way to flush it. -/
theorem wait_completes (info : Nat → Info) (c : Context) (hc : c.Fresh info) (ops : List Operation)
    (plan device thread : Nat) (hops : ∀ op ∈ ops, op.By thread) (events : List Nat) (c' : Context)
    (hwait : wait plan device thread events (c.history ops) = .ok () c')
    (index : Nat) (hindex : index ∈ events) (desc : Descriptor) (b : Brackets)
    (hevent : (c'.share plan device).events.event index = .ok (desc, b)) :
    (c'.timers device b).isComplete = true ∨
      ∃ before op rest, ops = before ++ op :: rest ∧
        ¬(c.history before).scene.Lost plan device thread b ∧
        (c.history (before ++ [op])).scene.Lost plan device thread b ∧
        op.Drops plan device thread (c.history before) := by
  have hown := history_own hc.own ops
  obtain ⟨pending, c₁, hany, hrest⟩ := bind_ok.1 hwait
  cases pending with
  | false =>
    cases hrest
    obtain ⟨rfl, hall⟩ := Control.anyPending_false hany
    exact .inl (hall index hindex desc b hevent)
  | true =>
    obtain rfl := Control.anyPending_still hany
    have hflush : flush plan device thread (c.history ops) = .ok () c' := hrest
    by_cases hstop : c'.scene.stampAt device b.stop = 0
    · -- it was lost before the flush, which empties the list and takes what it finds there
      have hlost : c'.scene.Lost plan device thread b := by
        refine ⟨⟨index, desc, hevent⟩, hstop, ?_⟩
        rw [Control.flush_empties hown hflush]
        exact not_mem_nil
      have heffect := ((Step.flush plan device thread).effect _ hown).2
      have hrun : (Step.flush plan device thread).run (c.history ops) = .ok () c' := hflush
      rw [failure_of_ok hrun, after_of_ok hrun] at heffect
      exact .inr
        (history_lost hc.own hc.not_lost hops (heffect.lost rfl nofun (fun _ => rfl) hlost))
    · exact .inl (bne_iff_ne.2 hstop)

/-- A thread launches a kernel that returns, and records a marker. -/
def markedLaunch : List Operation :=
  [.install 0 0 "m" "k" (kernelEnding 0x000100FD), .launch 0 0 3 "m-k" {} [],
    .barrier 0 0 3 .marker]

theorem wait_completes_marked :
    failure (wait 0 0 3 [0, 1]) (({} : Context).history markedLaunch) = none ∧
    ((after (wait 0 0 3 [0, 1]) (({} : Context).history markedLaunch)).timers 0
      ⟨2, 3⟩).isComplete = true := by
  have hrun : failure (wait 0 0 3 [0, 1]) (({} : Context).history markedLaunch) = none := by
    decide +kernel
  obtain ⟨u, hok⟩ := ok_of_failure hrun
  have hevent : ((after (wait 0 0 3 [0, 1]) (({} : Context).history markedLaunch)).share 0
      0).events.event 1 = .ok (.marker, ⟨2, 3⟩) :=
    EventWindow.event_of_slot (by decide +kernel)
  refine ⟨hrun, (wait_completes (fun _ => {}) {} fresh_default markedLaunch 0 0 3
    (by simp [markedLaunch, Operation.By]) [0, 1] _ hok 1 (by decide) .marker ⟨2, 3⟩
    hevent).resolve_right ?_⟩
  -- none of the operations drops commands
  rintro ⟨before, op, rest, hops, -, -, hdrops⟩
  have hmem : op ∈ markedLaunch := hops ▸ by simp
  simp only [markedLaunch, mem_cons, not_mem_nil, or_false] at hmem
  rcases hmem with rfl | rfl | rfl
  · simp [Operation.Drops, Operation.Uses] at hdrops
  · simp [Operation.Drops, Operation.Uses] at hdrops
  · simp [Operation.Drops, Operation.Uses] at hdrops

/-- A wait succeeds on an event that has not stopped: when the kernel before it fails, and when its
queue is destroyed. -/
theorem dropped_marker_waits :
    failure (wait 0 0 3 [1]) (({} : Context).history
      [.install 0 0 "m" "k" (kernelEnding 0x000100FF), .launch 0 0 3 "m-k" {} [],
        .barrier 0 0 3 .marker, .flush 0 0 3]) = none ∧
    ((after (wait 0 0 3 [1]) (({} : Context).history
      [.install 0 0 "m" "k" (kernelEnding 0x000100FF), .launch 0 0 3 "m-k" {} [],
        .barrier 0 0 3 .marker, .flush 0 0 3])).timers 0 ⟨2, 3⟩).isComplete = false ∧
    failure (wait 0 0 3 [0]) (({} : Context).history
      [.barrier 0 0 3 .marker, .cleanupQueue 0 0 3]) = none ∧
    ((after (wait 0 0 3 [0]) (({} : Context).history
      [.barrier 0 0 3 .marker, .cleanupQueue 0 0 3])).timers 0 ⟨0, 1⟩).isComplete = false := by
  refine ⟨?_, ?_, ?_, ?_⟩
  · decide +kernel
  · decide +kernel
  · decide +kernel
  · decide +kernel

end Context

end KernelForge.Host
