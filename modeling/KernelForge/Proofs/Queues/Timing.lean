import KernelForge.Proofs.Queues.Effects

/-!
# Times follow the order of the work

Every time a device gives out is later than all before it, whatever the host's clock says. What a
thread has recorded is a row of brackets: the timestamp that starts an event, its work, and the
timestamp that stops it, each with a cell of its own (`Scene.InRows`). So a flush that succeeds
leaves times that rise along the row, all of them later than what the device gave out before.
-/

namespace KernelForge

open List

variable {cs : List Command}

namespace Device

theorem Simulator.lt_nextTime (clock reading : Nat) : clock < nextTime clock reading := by
  unfold nextTime
  split <;> omega

/-- The cell that a command takes a time into. -/
def Command.cell? : Command → Option Nat
  | .stamp cell => some cell
  | _ => none

/-- The cells that commands take times into, in order. -/
def stampCells (cs : List Command) : List Nat := cs.filterMap Command.cell?

theorem mem_stampCells {cell : Nat} : cell ∈ stampCells cs ↔ .stamp cell ∈ cs := by
  refine mem_filterMap.trans ⟨?_, fun h => ⟨_, h, rfl⟩⟩
  rintro ⟨x, hx, hcell⟩
  cases x <;> cases hcell
  exact hx

/-- What a run that takes times into some cells leaves of clock and times. -/
structure Simulator.Times (cells : List Nat) (d d' : Simulator) : Prop where
  clock : d.clock ≤ d'.clock
  kept : ∀ cell ∉ cells, d'.stampAt cell = d.stampAt cell

instance (cells : List Nat) : Chain (Simulator.Times cells) where
  refl _ := ⟨Nat.le_refl _, fun _ _ => rfl⟩
  trans a b := ⟨Nat.le_trans a.clock b.clock,
    fun cell h => (b.kept cell h).trans (a.kept cell h)⟩

namespace Operate

open Simulator (Times)

variable {d d' : Simulator}

theorem execute_times {x : Command} {cells : List Nat}
    (h : ∀ cell, x = .stamp cell → cell ∈ cells) :
    Along (Times cells) (execute x) := by
  refine execute_along (fun _ _ _ => ⟨Nat.le_refl _, fun _ _ => rfl⟩)
    (fun _ _ _ => ⟨Nat.le_refl _, fun _ _ => rfl⟩) x fun cell hx d => ?_
  subst hx
  refine ⟨Nat.le_of_lt (Simulator.lt_nextTime _ _), fun i hi => ?_⟩
  refine (stampAt_stamped cell i d).trans (if_neg ?_)
  rintro ⟨rfl, -⟩
  exact hi (h cell rfl)

theorem executeAll_times (cs : List Command) : Along (Times (stampCells cs)) (cs.forM execute) :=
  Along.forM fun _ hx => execute_times fun _ heq => mem_stampCells.2 (heq ▸ hx)

/-- A run that succeeds takes times that rise along its commands. -/
theorem executeAll_rises (h : cs.forM execute d = .ok () d')
    (honce : (stampCells cs).Nodup) (hcells : ∀ x ∈ cs, x.Within d) :
    (d.clock :: (stampCells cs).map d'.stampAt).Pairwise (· < ·) ∧
      ∀ cell ∈ stampCells cs, d'.stampAt cell ≤ d'.clock := by
  induction cs generalizing d with
  | nil => exact ⟨pairwise_singleton _ _, nofun⟩
  | cons x cs ih =>
    obtain ⟨_, d₁, hfirst, hrest⟩ := bind_ok.1 h
    obtain ⟨hx, hcs⟩ := forall_mem_cons.1 hcells
    have hrunning : d.Running d₁ := after_of_ok hfirst ▸ execute_running x d
    have hlater := executeAll_times cs d₁
    rw [after_of_ok hrest] at hlater
    have honce' : (stampCells cs).Nodup := honce.sublist ((sublist_cons_self x cs).filterMap _)
    obtain ⟨hrises, hpast⟩ := ih hrest honce' fun y hy => hrunning.within (hcs y hy)
    obtain ⟨hclock, hrow⟩ := pairwise_cons.1 hrises
    cases hcell : x.cell? with
    | none =>
      have hcells : stampCells (x :: cs) = stampCells cs := filterMap_cons_none hcell
      have htimes : Times [] d _ := execute_times (x := x) (fun _ heq => nomatch heq ▸ hcell) d
      rw [after_of_ok hfirst] at htimes
      rw [hcells]
      exact ⟨pairwise_cons.2
        ⟨fun t ht => Nat.lt_of_le_of_lt htimes.clock (hclock t ht), hrow⟩, hpast⟩
    | some cell =>
      have hcells : stampCells (x :: cs) = cell :: stampCells cs := filterMap_cons_some hcell
      rw [hcells] at honce ⊢
      cases x <;> cases hcell
      cases (execute_stamp cell d).symm.trans hfirst
      -- no later command takes a time into the same cell
      have hkept := hlater.kept cell (nodup_cons.1 honce).1
      rw [stampAt_stamped, if_pos ⟨rfl, hx⟩] at hkept
      have hnow := Simulator.lt_nextTime d.clock (d.readings.headD 0)
      rw [map_cons, hkept]
      refine ⟨pairwise_cons.2 ⟨forall_mem_cons.2 ⟨hnow, fun t ht =>
        Nat.lt_trans hnow (hclock t ht)⟩, hrises⟩, forall_mem_cons.2 ⟨?_, hpast⟩⟩
      rw [hkept]
      exact hlater.clock

end Operate

end Device

namespace Host

open Device (Info Simulator Command Operate stampCells mem_stampCells)

/-- Work between the timestamps of its event. -/
def Brackets.around (b : Brackets) (work : List Command) : List Command :=
  .stamp b.start :: (work ++ [.stamp b.stop])

/-- Commands that are the work of events one after another, each with cells of its own. -/
structure IsRow (row : List (Brackets × List Command)) (cs : List Command) : Prop where
  commands : cs = row.flatMap fun e => e.1.around e.2
  work : ∀ e ∈ row, stampCells e.2 = []
  once : (stampCells cs).Nodup

theorem Brackets.around_cells {b : Brackets} {work : List Command} (h : stampCells work = []) :
    stampCells (b.around work) = [b.start, b.stop] := by
  unfold stampCells at h
  simp [Brackets.around, stampCells, Command.cell?, h]

theorem IsRow.nil : IsRow [] [] := ⟨rfl, nofun, nodup_nil⟩

theorem IsRow.cells {row : List (Brackets × List Command)} (h : IsRow row cs) :
    stampCells cs = row.flatMap fun e => [e.1.start, e.1.stop] := by
  obtain ⟨rfl, hwork, -⟩ := h
  induction row with
  | nil => rfl
  | cons e row ih =>
    obtain ⟨he, hrow⟩ := forall_mem_cons.1 hwork
    rw [flatMap_cons, flatMap_cons, ← Brackets.around_cells (b := e.1) he, ← ih hrow]
    exact filterMap_append

variable {r : Option Error}

namespace Scene

variable {s s' : Scene} {plan device thread : Nat}

/-- What each thread has recorded is a row of brackets. -/
def InRows (s : Scene) : Prop := ∀ p i t, ∃ row, IsRow row (s.pending p i t)

/-- Rows are left, and no clock went back. -/
def Follows (s s' : Scene) : Prop := s'.InRows ∧ ∀ i, s.clock i ≤ s'.clock i

/-- What was recorded may be dropped. -/
theorem InRows.follows (h : s.InRows)
    (hpending : ∀ p i t, s'.pending p i t = [] ∨ s'.pending p i t = s.pending p i t)
    (hclock : ∀ i, s.clock i ≤ s'.clock i) : s.Follows s' := by
  refine ⟨fun p i t => ?_, hclock⟩
  rcases hpending p i t with heq | heq
  · exact ⟨[], heq ▸ .nil⟩
  · exact heq ▸ h p i t

theorem Follows.trans {s'' : Scene} (h : s.Follows s') (h' : s'.Follows s'') : s.Follows s'' :=
  ⟨h'.1, fun i => Nat.le_trans (h.2 i) (h'.2 i)⟩

/-- Work that is recorded with an event goes to the end of a row. -/
theorem Entered.follows {desc : Descriptor} {index : Nat} {b : Brackets}
    {w : EventWindow Brackets} (he : Entered plan device thread desc cs index b w s s')
    (h : s.InRows) (hcs : stampCells cs = []) : s.Follows s' := by
  refine ⟨fun p i t => ?_, fun i => by rw [he.after]; exact Nat.le_refl _⟩
  rw [he.pending_if]
  split
  · obtain ⟨row, hrow⟩ := h plan device thread
    have hcells : stampCells (s.pending plan device thread ++ b.around cs) =
        stampCells (s.pending plan device thread) ++ [b.start, b.stop] := by
      rw [← Brackets.around_cells hcs]
      exact filterMap_append
    refine ⟨row ++ [(b, cs)], ?_, forall_mem_append.2 ⟨hrow.work, by simpa using hcs⟩, ?_⟩
    · rw [flatMap_append, ← hrow.commands, flatMap_singleton]
      rfl
    · refine hcells ▸ nodup_append.2 ⟨hrow.once, by simp [he.apart], ?_⟩
      rintro x hx y hy rfl
      have hfresh := he.fresh plan thread
      have hxy : x = b.start ∨ x = b.stop := by simpa using hy
      rcases hxy with rfl | rfl
      · exact hfresh.1 (mem_stampCells.1 hx)
      · exact hfresh.2 (mem_stampCells.1 hx)
  · exact h p i t

theorem Ran.follows (hran : Ran plan device thread s r s') (h : s.InRows) : s.Follows s' := by
  refine h.follows (fun p i t => ?_) fun i => ?_
  · rw [hran.pending_if]
    split
    · exact .inl rfl
    · exact .inr rfl
  · have hclock : ∀ d d' : Simulator, s.Shows device d →
        d.Times (stampCells (s.pending plan device thread)) d' →
        s.clock i ≤ if device = i then d'.clock else s.clock i := by
      intro d d' hd htimes
      split
      · next heq => exact heq ▸ hd.clock ▸ htimes.clock
      · exact Nat.le_refl _
    cases hran with
    | @done d d' hd hcs hrun =>
      exact hclock d d' hd (after_of_ok hrun ▸ Operate.executeAll_times _ d)
    | @stopped d d' e hd hcs hrun =>
      exact hclock d d' hd (after_of_error hrun ▸ Operate.executeAll_times _ d)

theorem Flushed.follows (hflushed : Flushed plan device thread s r s')
    (h : s.InRows) : s.Follows s' := by
  cases hflushed with
  | stopped hran | unframed hran | freed hran => exact hran.follows h

theorem Reset.follows (hreset : Reset plan s r s') (h : s.InRows) : s.Follows s' := by
  cases hreset with
  | stopped hshed =>
    exact h.follows (fun _ _ _ => .inr (by rw [hshed.pending])) fun _ => by rw [hshed.clock]
  | @done s₁ held hshed =>
    refine h.follows (fun p i t => ?_) fun i => Nat.le_of_eq (congrFun hshed.clock i).symm
    show (if plan = p then [] else s₁.pending p i t) = [] ∨ ite _ _ _ = s.pending p i t
    split
    · exact .inl rfl
    · exact .inr (by rw [hshed.pending])

end Scene

/-- After every step what is recorded is in rows, and no clock went back. -/
theorem Effect.follows {x : Step} {s s' : Scene} (heffect : Effect x r s s')
    (h : s.InRows) : s.Follows s' := by
  have hsame : ∀ s' : Scene, s'.pending = s.pending → s'.clock = s.clock → s.Follows s' :=
    fun s' hpending hclock =>
      h.follows (fun _ _ _ => .inr (by rw [hpending])) fun _ => by rw [hclock]
  have hframed : ∀ {plan device thread bytes a : Nat} {s₁ : Scene},
      Scene.Framed plan device thread bytes s a s₁ → s.Follows s₁ := by
    intro _ _ _ _ _ _ hframed
    cases hframed <;> exact hsame _ rfl rfl
  cases heffect with
  | barrier hentered | written hentered => exact hentered.follows h rfl
  | read hentered => exact hentered.follows (s := s.setSinks _ _) h rfl
  | framed hframe => exact hframed hframe
  | launched hkernel hframe hentered =>
    have hfirst := hframed hframe
    exact hfirst.trans (hentered.follows hfirst.1 rfl)
  | flushed hflushed => exact hflushed.follows h
  | @closed plan device thread =>
    refine h.follows (fun p i t => ?_) fun _ => Nat.le_refl _
    show (if plan = p ∧ device = i ∧ thread = t then [] else s.pending p i t) = [] ∨ ite _ _ _ = _
    split
    · exact .inl rfl
    · exact .inr rfl
  | reset hreset => exact hreset.follows h
  | _ => exact hsame _ rfl rfl

namespace Context

variable {info : Nat → Info} {c : Context}

theorem Fresh.inRows (h : c.Fresh info) : c.scene.InRows :=
  fun p i t => ⟨[], by
    show IsRow [] (c.pending p i t)
    rw [h.pending]
    exact .nil⟩

theorem history_follows (hc : OwnLists info c) (h : c.scene.InRows) (ops : List Operation) :
    c.scene.Follows (c.history ops).scene :=
  history_scene (Q := c.scene.Follows)
    (fun _ _ _ _ heffect hs => hs.trans (heffect.follows hs.1)) hc
    ⟨h, fun _ => Nat.le_refl _⟩ ops

/-- The times of a row of events, in their order. -/
def rowTimes (c : Context) (device : Nat) (row : List (Brackets × List Command)) : List Nat :=
  row.flatMap fun e => [(c.timers device e.1).start, (c.timers device e.1).stop]

open Control (flush)

/-- A flush that succeeds gives the events of its row times that rise. -/
theorem flush_rises {c' : Context} {plan device thread : Nat} (hc : OwnLists info c)
    (h : c.scene.InRows) (hrun : flush plan device thread c = .ok () c') :
    ∃ row, IsRow row (c.pending plan device thread) ∧
      (c.scene.clock device :: c'.rowTimes device row).Pairwise (· < ·) ∧
      ∀ time ∈ c'.rowTimes device row, time ≤ c'.scene.clock device := by
  have hflushed := Step.flush_ok hc hrun
  obtain ⟨d, d', hshows, hcs, hall, hstamp, hclock⟩ : ∃ d d' : Simulator, c.scene.Shows device d ∧
      (∀ x ∈ c.scene.pending plan device thread, x.Within d) ∧
      (c.scene.pending plan device thread).forM Operate.execute d = .ok () d' ∧
      c'.scene.stampAt device = d'.stampAt ∧ c'.scene.clock device = d'.clock := by
    generalize c'.scene = s' at hflushed
    cases hflushed with
    | unframed hran | freed hran =>
      cases hran with
      | @done d d' hd hcs hrun => exact ⟨d, d', hd, hcs, hrun, if_pos rfl, if_pos rfl⟩
  obtain ⟨row, hrow⟩ := h plan device thread
  obtain ⟨hrises, hpast⟩ := Operate.executeAll_rises hall hrow.once hcs
  have htimes : c'.rowTimes device row =
    (stampCells (c.pending plan device thread)).map d'.stampAt := by
    have hcells : stampCells (c.pending plan device thread) = _ := hrow.cells
    rw [← hstamp, hcells, map_flatMap]
    rfl
  refine ⟨row, hrow, ?_, ?_⟩
  · rw [htimes, hshows.clock]
    exact hrises
  · rw [htimes, hclock]
    exact forall_mem_map.2 hpast

/-- **flushes_in_order**: what a thread has recorded is a row of events, each between its
timestamps. When a flush of it and a later one on the same device have succeeded, whatever was done
between them, all times that they took are positive and rise in the order in which the events were
recorded: every event starts before it stops, and stops before the next one starts. -/
theorem flushes_in_order (info : Nat → Info) (c : Context) (hc : c.Fresh info)
    (before between : List Operation) (device plan thread plan' thread' : Nat) (c₁ c₂ : Context)
    (hfirst : flush plan device thread (c.history before) = .ok () c₁)
    (hsecond : flush plan' device thread' (c₁.history between) = .ok () c₂) :
    ∃ row row', IsRow row ((c.history before).pending plan device thread) ∧
      IsRow row' ((c₁.history between).pending plan' device thread') ∧
      (0 :: (c₁.rowTimes device row ++ c₂.rowTimes device row')).Pairwise (· < ·) := by
  have hown := history_own hc.own before
  have hrows := (history_follows hc.own hc.inRows before).1
  have hc₁ : c₁ = after (Operation.flush plan device thread).perform (c.history before) :=
    (after_of_ok hfirst).symm
  have hown₁ : OwnLists info c₁ := hc₁ ▸ Operation.perform_own _ hown
  have hrows₁ : c₁.scene.InRows := hc₁ ▸
    (history_follows hown hrows [.flush plan device thread]).1
  have hbetween := history_follows hown₁ hrows₁ between
  obtain ⟨row, hrow, hrises, hpast⟩ := flush_rises hown hrows hfirst
  obtain ⟨row', hrow', hrises', -⟩ := flush_rises (history_own hown₁ between) hbetween.1 hsecond
  obtain ⟨hpositive, hrises⟩ := pairwise_cons.1 hrises
  obtain ⟨hlater, hrises'⟩ := pairwise_cons.1 hrises'
  have hclock := hbetween.2 device
  refine ⟨row, row', hrow, hrow', pairwise_cons.2 ⟨fun time htime => ?_,
    pairwise_append.2 ⟨hrises, hrises', fun time htime time' htime' => ?_⟩⟩⟩
  · rcases mem_append.1 htime with htime | htime
    · exact Nat.lt_of_le_of_lt (Nat.zero_le _) (hpositive time htime)
    · exact Nat.lt_of_le_of_lt (Nat.zero_le _) (hlater time htime)
  · exact Nat.lt_of_le_of_lt (Nat.le_trans (hpast time htime) hclock) (hlater time' htime')

/-- Two markers of a thread were flushed, on a device whose host clock stands still. -/
def twoMarkers : Context :=
  after (flush 0 0 3)
    (({} : Context).history [.barrier 0 0 3 .marker, .barrier 0 0 3 .marker])

theorem flushes_in_order_stalled :
    failure (flush 0 0 4) (twoMarkers.history [.barrier 0 0 4 .marker]) = none ∧
    ∃ row row', IsRow row
        ((({} : Context).history [.barrier 0 0 3 .marker, .barrier 0 0 3 .marker]).pending 0 0 3) ∧
      IsRow row' ((twoMarkers.history [.barrier 0 0 4 .marker]).pending 0 0 4) ∧
      (0 :: (twoMarkers.rowTimes 0 row ++ (after (flush 0 0 4)
        (twoMarkers.history [.barrier 0 0 4 .marker])).rowTimes 0 row')).Pairwise (· < ·) := by
  have hrun :
    failure (flush 0 0 4) (twoMarkers.history [.barrier 0 0 4 .marker]) = none := by
    decide +kernel
  obtain ⟨_, hfirst⟩ := ok_of_failure (x := flush 0 0 3)
    (s := ({} : Context).history [.barrier 0 0 3 .marker, .barrier 0 0 3 .marker])
    (by decide +kernel)
  obtain ⟨_, hsecond⟩ := ok_of_failure hrun
  exact ⟨hrun, flushes_in_order (fun _ => {}) {} fresh_default
    [.barrier 0 0 3 .marker, .barrier 0 0 3 .marker] [.barrier 0 0 4 .marker] 0 0 3 0 4 twoMarkers _
    hfirst hsecond⟩

end Context

end Host

end KernelForge
