import KernelForge.Proofs.Queues.Running

/-!
# Giving up queues and plans

A queue is given up with its list and all that is recorded in it (`Closes`). A plan that is reset
gives back what it holds first and its queues after that, so a reset that fails on the way leaves
what the plan's threads have recorded.
-/

namespace KernelForge

open List hiding get modify set

namespace Device

variable {d : Simulator}

theorem Operate.destroyQueue_run {list : Nat} {cs : List Command}
    (h : d.lists.get? list = some cs) :
    destroyQueue list d = .ok () { d with lists := d.lists.erase list } := by
  have hrun := commands_run list d
  rw [h] at hrun
  exact bind_of_ok hrun

theorem Operate.destroyAll_run {ls : List Nat} (hkeyed : d.lists.Keyed) (hnodup : ls.Nodup)
    (hall : ∀ l ∈ ls, (d.lists.get? l).isSome) :
    ∃ lists, ls.forM destroyQueue d = .ok () { d with lists } ∧ lists.Keyed ∧
      ∀ l, lists.get? l = if l ∈ ls then none else d.lists.get? l := by
  induction ls generalizing d with
  | nil => exact ⟨d.lists, rfl, hkeyed, fun l => (if_neg not_mem_nil).symm⟩
  | cons list ls ih =>
    obtain ⟨hnew, hnodup⟩ := nodup_cons.1 hnodup
    obtain ⟨cs, hcs⟩ := Option.isSome_iff_exists.1 (hall list mem_cons_self)
    have hothers : ∀ l ∈ ls, ((d.lists.erase list).get? l).isSome := by
      intro l hl
      have hne : list ≠ l := fun heq => hnew (heq ▸ hl)
      rw [Table.get?_erase_of_ne _ hne]
      exact hall l (mem_cons_of_mem _ hl)
    obtain ⟨lists, hrest, hkeyed', hget⟩ :=
      ih (d := { d with lists := d.lists.erase list }) (hkeyed.erase list) hnodup hothers
    refine ⟨lists, ?_, hkeyed', fun l => ?_⟩
    · exact (bind_of_ok (destroyQueue_run hcs)).trans hrest
    · rw [hget]
      by_cases hmem : l ∈ ls
      · rw [if_pos hmem, if_pos (mem_cons_of_mem _ hmem)]
      · rw [Table.get?_erase hkeyed]
        simp [hmem, eq_comm]

end Device

namespace Host

open Device (Info Simulator Command Operate Heap)

variable {info : Nat → Info} {c c' : Context} {plan device thread : Nat} {d : Simulator}

/-! ## Queues that are given up -/

/-- Some queues are given up, and with them their lists, which are listed by device. -/
structure Closes (gone : Nat → Nat → Nat → Prop) (dropped : Nat → List Nat) (c c' : Context) :
    Prop where
  plans : c'.plans.Keyed
  keyed : ∀ p, (c'.queues p).Keyed
  closed : ∀ p i t, gone p i t → (c'.queues p).get? i t = none
  others : ∀ p i t, ¬ gone p i t → (c'.queues p).get? i t = (c.queues p).get? i t
  lists : ∀ i l, l ∈ dropped i ↔ ∃ p t, gone p i t ∧ (c.queues p).get? i t = some l
  size : c'.devices.size = c.devices.size
  devices : ∀ (i : Nat) (d : Simulator), c.devices[i]? = some d →
    ∃ ls, c'.devices[i]? = some { d with lists := ls } ∧ ls.Keyed ∧
      ∀ l, ls.get? l = if l ∈ dropped i then none else d.lists.get? l

namespace Closes

variable {gone : Nat → Nat → Nat → Prop} {dropped : Nat → List Nat}

variable (h : Closes gone dropped c c')

include h

/-- A queue that stays keeps its list. -/
theorem kept (hown : OwnLists info c) {p i t l : Nat}
    (hstays : ¬ gone p i t) (hl : (c.queues p).get? i t = some l) : l ∉ dropped i := by
  intro hmem
  obtain ⟨p', t', hgone, hl'⟩ := (h.lists i l).1 hmem
  obtain ⟨rfl, rfl⟩ := hown.apart p t p' t' i l hl hl'
  exact hstays hgone

theorem own (hown : OwnLists info c) : OwnLists info c' := by
  have hback : ∀ (i : Nat) (d' : Simulator), c'.devices[i]? = some d' →
      ∃ d ls, c.devices[i]? = some d ∧ d' = { d with lists := ls } ∧ ls.Keyed ∧
        ∀ l, ls.get? l = if l ∈ dropped i then none else d.lists.get? l := by
    intro i d' hd'
    have hd := Array.getElem?_eq_getElem (h.size ▸ (Array.getElem?_eq_some_iff.1 hd').1)
    obtain ⟨ls, hls, hkeyed, hget⟩ := h.devices i _ hd
    exact ⟨_, ls, hd, Option.some.inj (hd'.symm.trans hls), hkeyed, hget⟩
  have hstays : ∀ p i t l, (c'.queues p).get? i t = some l →
      ¬ gone p i t ∧ (c.queues p).get? i t = some l := by
    intro p i t l hl
    have hnot : ¬ gone p i t := fun hgone => by
      rw [h.closed p i t hgone] at hl
      cases hl
    exact ⟨hnot, h.others p i t hnot ▸ hl⟩
  refine ⟨h.plans, h.keyed, fun i d' hd' => ?_, fun p i t l hl => ?_,
    fun p t p' t' i l hl hl' => ?_, fun i d' l cs hd' hcs => ?_⟩
  · obtain ⟨d, ls, hd, rfl, hkeyed, hget⟩ := hback i d' hd'
    have horderly := hown.devices i d hd
    have hsome : ∀ l cs, ls.get? l = some cs → d.lists.get? l = some cs := by
      intro l cs hcs
      rw [hget] at hcs
      split at hcs
      · cases hcs
      · exact hcs
    exact ⟨horderly.about, hkeyed, fun l cs hcs => horderly.handles l cs (hsome l cs hcs),
      fun l cs hcs => horderly.within l cs (hsome l cs hcs), horderly.handed⟩
  · obtain ⟨hnot, hl⟩ := hstays p i t l hl
    obtain ⟨d, cs, hd, hcs⟩ := hown.listed p i t l hl
    obtain ⟨ls, hls, -, hget⟩ := h.devices i d hd
    exact ⟨_, cs, hls, by rw [hget, if_neg (h.kept hown hnot hl), hcs]⟩
  · exact hown.apart p t p' t' i l (hstays p i t l hl).2 (hstays p' i t' l hl').2
  · obtain ⟨d, ls, hd, rfl, -, hget⟩ := hback i d' hd'
    have hcs' : ls.get? l = some cs := hcs
    rw [hget] at hcs'
    split at hcs'
    · cases hcs'
    · next hmem =>
      obtain ⟨p, t, hl⟩ := hown.owned i d l cs hd hcs'
      have hnot : ¬ gone p i t := fun hgone => hmem ((h.lists i l).2 ⟨p, t, hgone, hl⟩)
      exact ⟨p, t, (h.others p i t hnot).trans hl⟩

/-- What is recorded in other lists stays. -/
theorem pending_kept (hown : OwnLists info c) {p i t : Nat}
    (hstays : ¬ gone p i t) : c'.pending p i t = c.pending p i t := by
  have hq := h.others p i t hstays
  cases hl : (c.queues p).get? i t with
  | none => rw [Context.pending_of_none hl, Context.pending_of_none (hq.trans hl)]
  | some l =>
    obtain ⟨d, cs, hd, hcs⟩ := hown.listed p i t l hl
    obtain ⟨ls, hls, -, hget⟩ := h.devices i d hd
    rw [Context.pending_eq hl hd hcs]
    refine Context.pending_eq (hq.trans hl) hls ?_
    rw [hget, if_neg (h.kept hown hstays hl), hcs]

theorem scene (hown : OwnLists info c) [∀ p i t, Decidable (gone p i t)] :
    c'.scene = { c.scene with
      pending := fun p i t => if gone p i t then [] else c.pending p i t
      share := c'.share } := by
  refine Context.scene_eq ?_ rfl (fun i => ?_) h.size
  · funext p i t
    show c'.pending p i t = if gone p i t then [] else c.pending p i t
    split
    · next hgone => exact Context.pending_of_none (h.closed p i t hgone)
    · next hstays => exact h.pending_kept hown hstays
  · have hshows : c.scene.Shows i (c.devices.getD i {}) := ⟨rfl, rfl, rfl, rfl, rfl⟩
    rw [Array.getD_eq_getD_getElem?] at hshows ⊢
    cases hd : c.devices[i]? with
    | none =>
      have hd' : c'.devices[i]? = none := by
        rw [Array.getElem?_eq_none_iff] at hd ⊢
        rwa [h.size]
      rw [hd] at hshows
      rw [hd']
      exact ⟨hshows.heap, hshows.kernels, hshows.stampAt, hshows.clock, hshows.sinks⟩
    | some d =>
      obtain ⟨ls, hls, -⟩ := h.devices i d hd
      rw [hd] at hshows
      rw [hls]
      exact ⟨hshows.heap, hshows.kernels, hshows.stampAt, hshows.clock, hshows.sinks⟩

end Closes

namespace Control

/-- A thread gives up its queue. -/
theorem closes_queue (h : OwnLists info c) (hd : c.devices[device]? = some d) {list : Nat}
    (hq : (c.queues plan).get? device thread = some list) :
    Closes (fun p i t => plan = p ∧ device = i ∧ thread = t)
      (fun i => if device = i then [list] else []) c
      ((c.setQueues plan ((c.queues plan).erase device thread)).setDevice device
        { d with lists := d.lists.erase list }) := by
  have hget : ∀ p i t,
    ((c.setQueues plan ((c.queues plan).erase device thread)).queues p).get? i t =
      if plan = p ∧ device = i ∧ thread = t then none else (c.queues p).get? i t := by
    intro p i t
    rw [Context.queues_setQueues]
    by_cases hp : plan = p
    · subst hp
      rw [if_pos rfl, ThreadQueues.get?_erase (h.queues plan)]
      simp
    · rw [if_neg hp, if_neg fun h => hp h.1]
  refine ⟨h.plans.insert _ _, fun p => ?_, fun p i t hgone => ?_, fun p i t hstays => ?_,
    fun i l => ⟨fun hmem => ?_, ?_⟩, Array.size_setIfInBounds, fun i e he => ?_⟩
  · show ((c.setQueues plan _).queues p).Keyed
    rw [Context.queues_setQueues]
    split
    · exact (h.queues plan).erase _ _
    · exact h.queues p
  · exact (hget p i t).trans (if_pos hgone)
  · exact (hget p i t).trans (if_neg hstays)
  · split at hmem
    · next heq =>
      cases mem_singleton.1 hmem
      exact ⟨plan, thread, ⟨rfl, heq, rfl⟩, heq ▸ hq⟩
    · cases hmem
  · rintro ⟨p, t, ⟨rfl, rfl, rfl⟩, hl⟩
    cases hq.symm.trans hl
    rw [if_pos rfl]
    exact mem_singleton.2 rfl
  · by_cases hi : device = i
    · subst hi
      cases hd.symm.trans he
      have hkeyed := (h.devices device d hd).keyed
      refine ⟨_, Context.getElem?_setDevice_self (c := c.setQueues plan _) hd _, hkeyed.erase _, ?_⟩
      intro l
      simp only [Table.get?_erase hkeyed, mem_singleton, eq_comm, if_true]
    · refine ⟨e.lists, ?_, (h.devices i e he).keyed, fun l => ?_⟩
      · rw [Context.getElem?_setDevice, if_neg hi]
        exact he
      · rw [if_neg hi, if_neg not_mem_nil]

/-- A thread that gives up its queue loses what it has recorded. -/
theorem cleanupQueue_run (h : OwnLists info c) (hd : c.devices[device]? = some d)
    (plan thread : Nat) :
    ∃ b c', cleanupQueue plan device thread c = .ok b c' ∧ OwnLists info c' ∧
      c'.scene = c.scene.setPending plan device thread [] := by
  have hrun : cleanupQueue plan device thread c =
      (if c.plans.contains plan then do
        set (c.setQueues plan ((c.queues plan).cleanup device thread).2)
        onDevice device ((c.queues plan).cleanup device thread).1
      else return false : Control Bool) c :=
    bind_of_ok (deviceInfo_run hd)
  rw [hrun]
  split
  · cases hq : (c.queues plan).get? device thread with
    | none =>
      have hcleanup : (c.queues plan).cleanup device thread = (pure false, c.queues plan) := by
        unfold ThreadQueues.cleanup
        rw [hq]
      rw [hcleanup]
      obtain ⟨hown, hscene, -⟩ := h.setQueues_self plan
      refine ⟨false, c.setQueues plan (c.queues plan), ?_, hown, ?_⟩
      · have hidle : onDevice device (pure false) (c.setQueues plan (c.queues plan)) = _ :=
          onDevice_ok (c := c.setQueues plan (c.queues plan)) hd rfl
        rw [Context.setDevice_self (c := c.setQueues plan (c.queues plan)) hd] at hidle
        exact hidle
      · rw [Scene.setPending_self (s := c.scene) (Context.pending_of_none hq), hscene]
    | some list =>
      have hcleanup : (c.queues plan).cleanup device thread =
          (do Operate.destroyQueue list; return true, (c.queues plan).erase device thread) := by
        unfold ThreadQueues.cleanup
        rw [hq]
      obtain ⟨_, cs, hd₁, hcs⟩ := h.listed plan device thread list hq
      cases hd.symm.trans hd₁
      have hdestroy : (do Operate.destroyQueue list; return true : Operate Bool) d =
          .ok true { d with lists := d.lists.erase list } :=
        bind_of_ok (Operate.destroyQueue_run hcs)
      have hcloses := closes_queue h hd hq
      rw [hcleanup]
      refine ⟨true, _, onDevice_ok (c := c.setQueues plan _) hd hdestroy, hcloses.own h, ?_⟩
      rw [hcloses.scene h]
      apply Scene.ext
      case share =>
        funext p i
        exact c.share_setQueues plan p i _
      all_goals rfl
  · next hplan =>
    refine ⟨false, c, rfl, h, (Scene.setPending_self ?_).symm⟩
    refine Context.pending_of_none ?_
    have hnone : c.plans.get? plan = none := by
      cases hget : c.plans.get? plan with
      | none => rfl
      | some =>
        rw [Table.contains, hget] at hplan
        exact absurd rfl hplan
    unfold Context.queues
    rw [hnone]
    rfl

end Control

/-! ## Plans that are reset -/

structure Share.Blank (s : Share) : Prop where
  events : ∀ j e, s.events.event j ≠ .ok e
  kernels : s.kernels = {}
  buffers : s.buffers = []
  frames : s.frames = ∅

theorem Context.newShare_blank (c : Context) : c.newShare.Blank :=
  ⟨EventWindow.event_new _ _, rfl, rfl, rfl⟩

def KernelCache.handles (k : KernelCache) : List Nat := k.byKey.values.map (·.handle)

namespace Scene

def setKernels (s : Scene) (device : Nat) (k : Table Nat Device.Kernel) : Scene :=
  { s with kernels := fun i => if device = i then k else s.kernels i }

/-- Whether a kernel is installed on a device. -/
def Installed (s : Scene) (device handle : Nat) : Prop := ((s.kernels device).get? handle).isSome

/-- A part of what a plan holds was given back. The kernels of a device were given back
together, and then the plan has none there. -/
structure Shed (plan : Nat) (s s' : Scene) : Prop where
  pending : s'.pending = s.pending
  others : ∀ p i, p ≠ plan → s'.share p i = s.share p i
  events : ∀ i j e, (s'.share plan i).events.event j = .ok e →
    (s.share plan i).events.event j = .ok e
  heap : ∀ i, (s.heap i).Forgets (s'.heap i)
  stampAt : s'.stampAt = s.stampAt
  clock : s'.clock = s.clock
  sinks : s'.sinks = s.sinks
  kernels : ∀ i,
    s'.kernels i = s.kernels i ∧ (s'.share plan i).kernels = (s.share plan i).kernels ∨
    (s'.share plan i).kernels = {} ∧
      ∀ h, s.Installed i h → h ∉ (s.share plan i).kernels.handles → s'.Installed i h
  size : s'.size = s.size

variable {plan : Nat} {s s' s'' : Scene}

theorem Shed.refl (plan : Nat) (s : Scene) : Shed plan s s :=
  ⟨rfl, fun _ _ _ => rfl, fun _ _ _ h => h, fun _ => .refl _, rfl, rfl, rfl,
    fun _ => .inl ⟨rfl, rfl⟩, rfl⟩

theorem Shed.trans (a : Shed plan s s') (b : Shed plan s' s'') : Shed plan s s'' where
  pending := b.pending.trans a.pending
  others p i hp := (b.others p i hp).trans (a.others p i hp)
  events i j e h := a.events i j e (b.events i j e h)
  heap i := (a.heap i).trans (b.heap i)
  stampAt := b.stampAt.trans a.stampAt
  clock := b.clock.trans a.clock
  sinks := b.sinks.trans a.sinks
  size := b.size.trans a.size
  kernels i := by
    rcases a.kernels i with ⟨hkernels, hcache⟩ | ⟨hcache, hkept⟩
    · rcases b.kernels i with ⟨hkernels', hcache'⟩ | ⟨hcache', hkept'⟩
      · exact .inl ⟨hkernels'.trans hkernels, hcache'.trans hcache⟩
      · rw [hcache] at hkept'
        exact .inr ⟨hcache', fun h hin => hkept' h (by unfold Installed; rwa [hkernels])⟩
    · rcases b.kernels i with ⟨hkernels', hcache'⟩ | ⟨hcache', hkept'⟩
      · refine .inr ⟨hcache'.trans hcache, fun h hin hout => ?_⟩
        unfold Installed
        rw [hkernels']
        exact hkept h hin hout
      · rw [hcache] at hkept'
        exact .inr ⟨hcache', fun h hin hout => hkept' h (hkept h hin hout) not_mem_nil⟩

theorem setDevice_kernels {device : Nat} {d d' : Simulator} (h : s.Shows device d)
    (hsteady : d.Steady d') (hheap : d'.heap = d.heap) :
    s.setDevice device d' = s.setKernels device d'.kernels := by
  have hshows : (s.setKernels device d'.kernels).Shows device d' :=
    ⟨h.heap.trans hheap.symm, if_pos rfl, h.stampAt.trans hsteady.stampAt.symm,
      h.clock.trans hsteady.clock.symm, h.sinks.trans hsteady.sinks.symm⟩
  rw [← setDevice_self hshows]
  apply Scene.ext
  case kernels => exact (ite_self (f := (s.setKernels device d'.kernels).kernels) (if_pos rfl)).symm
  all_goals rfl

/-- The events and kernels of a plan on a device are forgotten, and the kernels released. -/
theorem shed_withdraw {device : Nat} {held : Share} {kernels : Table Nat Device.Kernel}
    (hevents : ∀ j e, held.events.event j ≠ .ok e) (hcache : held.kernels = {})
    (hkept : ∀ h, s.Installed device h → h ∉ (s.share plan device).kernels.handles →
      (kernels.get? h).isSome) :
    Shed plan s ((s.setShare plan device held).setKernels device kernels) := by
  refine ⟨rfl, fun p i hp => if_neg fun heq => hp heq.1.symm, fun i j e he => ?_, fun i => .refl _,
    rfl, rfl, rfl, fun i => ?_, rfl⟩
  · have he' : (if plan = plan ∧ device = i then held else s.share plan i).events.event j = .ok e :=
      he
    split at he'
    · exact absurd he' (hevents j e)
    · exact he'
  · by_cases hi : device = i
    · subst hi
      refine .inr ⟨?_, fun h hin hout => ?_⟩
      · show (if plan = plan ∧ device = device then held else s.share plan device).kernels = {}
        rw [if_pos ⟨rfl, rfl⟩, hcache]
      · show ((if device = device then kernels else s.kernels device).get? h).isSome
        rw [if_pos rfl]
        exact hkept h hin hout
    · refine .inl ⟨if_neg hi, ?_⟩
      show (if plan = plan ∧ device = i then held else s.share plan i).kernels = _
      rw [if_neg fun heq => hi heq.2]

theorem setKernels_self (s : Scene) (device : Nat) :
    s.setKernels device (s.kernels device) = s := by
  unfold setKernels
  congr
  funext i
  split
  · next heq => rw [heq]
  · rfl

def forget (s : Scene) (plan : Nat) (held : Share) : Scene :=
  { s with
    pending := fun p i t => if plan = p then [] else s.pending p i t
    share := fun p i => if plan = p then held else s.share p i }

/-- A plan gave back a part of what it held, or all and was forgotten. -/
inductive Reset (plan : Nat) (s : Scene) : Option Error → Scene → Prop
  | stopped {e : Error} {s' : Scene} (hshed : Shed plan s s') : Reset plan s (some e) s'
  | done {s' : Scene} {held : Share} (hshed : Shed plan s s') (hheld : held.Blank) :
    Reset plan s none (s'.forget plan held)

end Scene

/-- Steps on which a plan gives something back. -/
def GivesUp (info : Nat → Info) (plan : Nat) (c c' : Context) : Prop :=
  OwnLists info c → OwnLists info c' ∧ Scene.Shed plan c.scene c'.scene ∧
    c'.devices.size = c.devices.size

instance (plan : Nat) : Chain (GivesUp info plan) where
  refl c h := ⟨h, .refl _ _, rfl⟩
  trans {c c' c''} a b h := by
    obtain ⟨h', hshed, hsize⟩ := a h
    obtain ⟨h'', hshed', hsize'⟩ := b h'
    exact ⟨h'', hshed.trans hshed', hsize'.trans hsize⟩

/-- Devices that differ in blocks that were taken back. -/
def Releases (d d' : Simulator) : Prop :=
  d.Steady d' ∧ d.heap.Forgets d'.heap ∧ d'.kernels = d.kernels

instance : Chain Releases where
  refl d := ⟨Chain.refl d, .refl _, rfl⟩
  trans a b := ⟨Chain.trans a.1 b.1, a.2.1.trans b.2.1, b.2.2.trans a.2.2⟩

theorem free_releases (a : Nat) : Along Releases (Operate.free a) := by
  intro d
  obtain ⟨heap, heq, hforgets⟩ := Operate.free_frees a d
  rw [heq]
  exact ⟨⟨rfl, rfl, rfl, rfl, rfl, Nat.le_refl _, Nat.le_refl _, id⟩, hforgets, rfl⟩

/-- Devices that differ in kernels, of which only some were taken back. -/
def Withdraws (gone : List Nat) (d d' : Simulator) : Prop :=
  d.Steady d' ∧ d'.heap = d.heap ∧
    ∀ h, (d.kernels.get? h).isSome → h ∉ gone → (d'.kernels.get? h).isSome

instance (gone : List Nat) : Chain (Withdraws gone) where
  refl d := ⟨Chain.refl d, rfl, fun _ h _ => h⟩
  trans a b := ⟨Chain.trans a.1 b.1, b.2.1.trans a.2.1,
    fun h hin hout => b.2.2 h (a.2.2 h hin hout) hout⟩

theorem releaseKernel_withdraws {gone : List Nat} {kernel : Nat} (hgone : kernel ∈ gone) :
    Along (Withdraws gone) (Operate.releaseKernel kernel) := by
  refine Along.get fun d => ?_
  split
  · refine ⟨⟨rfl, rfl, rfl, rfl, rfl, Nat.le_refl _, Nat.le_refl _, fun hd h hh => ?_⟩, rfl,
      fun h hin hout => ?_⟩
    · exact hd h (((Table.drop_sublist kernel d.kernels.entries).map Prod.fst).subset hh)
    · have hne : h ≠ kernel := fun heq => hout (heq ▸ hgone)
      show ((d.kernels.erase kernel).get? h).isSome
      rwa [Table.get?_erase_of_ne _ hne.symm]
  · exact Chain.refl d

theorem KernelCache.release_withdraws (k : KernelCache) : Along (Withdraws k.handles) k.release :=
  .forM fun _ hkernel => releaseKernel_withdraws (mem_map.2 ⟨_, hkernel, rfl⟩)

namespace Control

theorem onDevice_givesUp {α : Type} {x : Operate α} (hx : Along Releases x) (plan : Nat) :
    Along (GivesUp info plan) (onDevice device x) := by
  intro c h
  cases hd : c.devices[device]? with
  | none =>
    rw [after_of_error (onDevice_of_none hd x)]
    exact Chain.refl (R := GivesUp info plan) c h
  | some d =>
    obtain ⟨hsteady, hforgets, hkernels⟩ := hx d
    have hshows := Context.scene_shows hd
    rw [after_onDevice hd]
    refine ⟨h.steady hd hsteady, ?_, Array.size_setIfInBounds⟩
    rw [Context.scene_setDevice_lists hd hsteady.lists]
    refine ⟨rfl, fun _ _ _ => rfl, fun _ _ _ he => he, fun i => ?_,
      Scene.ite_self (hshows.stampAt.trans hsteady.stampAt.symm),
      Scene.ite_self (hshows.clock.trans hsteady.clock.symm),
      Scene.ite_self (hshows.sinks.trans hsteady.sinks.symm), fun i => .inl ⟨?_, rfl⟩, rfl⟩
    · show Heap.Forgets _ (if device = i then _ else _)
      split
      · next heq => exact heq ▸ hshows.heap ▸ hforgets
      · exact .refl _
    · show (if device = i then _ else _) = _
      split
      · next heq => rw [hkernels, ← heq, hshows.kernels]
      · rfl

theorem changeShare_givesUp {f : Share → Share}
    (hf : ∀ s j e, (f s).events.event j = .ok e → s.events.event j = .ok e)
    (hkernels : ∀ s, (f s).kernels = s.kernels) :
    Along (GivesUp info plan) (changeShare plan device f) := by
  intro c h
  refine ⟨h.setShare plan device _, ?_, rfl⟩
  show Scene.Shed plan c.scene (c.setShare plan device _).scene
  rw [Context.scene_setShare]
  refine ⟨rfl, fun p i hp => if_neg fun heq => hp heq.1.symm, fun i j e he => ?_,
    fun i => .refl _, rfl, rfl, rfl, fun i => .inl ⟨rfl, ?_⟩, rfl⟩
  case refine_2 =>
    show (if plan = plan ∧ device = i then f (c.share plan device) else c.share plan i).kernels = _
    split
    · next heq => exact heq.2 ▸ hkernels _
    · rfl
  have he' : (if plan = plan ∧ device = i then f (c.share plan device)
    else c.share plan i).events.event j = .ok e := he
  split at he'
  · next heq => exact heq.2 ▸ hf _ j e he'
  · exact he'

theorem dropFrame_givesUp (frame : Frame) :
    Along (GivesUp info plan) (dropFrame plan device thread frame) := by
  refine .bind (changeShare_givesUp (fun s j e h => h) fun _ => rfl) fun _ =>
    onDevice_givesUp ?_ plan
  exact (free_releases _).bind fun _ => .forM fun a _ => free_releases a

/-- The events and the kernels of a plan on a device are forgotten, and the kernels released. -/
theorem withdraw_givesUp (c : Context) (plan device : Nat) :
    GivesUp info plan c (after (onDevice device (c.share plan device).kernels.release)
      (c.setShare plan device
        { c.share plan device with events := c.newShare.events, kernels := {} })) := by
  intro h
  let held : Share := { c.share plan device with events := c.newShare.events, kernels := {} }
  have hown := h.setShare plan device held
  have hevents := c.newShare_blank.events
  cases hd : c.devices[device]? with
  | none =>
    rw [after_of_error (onDevice_of_none (c := c.setShare plan device held) hd _)]
    refine ⟨hown, ?_, rfl⟩
    have hscene : (c.setShare plan device held).scene =
        (c.scene.setShare plan device held).setKernels device (c.scene.kernels device) := by
      rw [Context.scene_setShare]
      exact (Scene.setKernels_self _ device).symm
    rw [hscene]
    exact Scene.shed_withdraw hevents rfl fun _ hin _ => hin
  | some d =>
    obtain ⟨hsteady, hheap, hkept⟩ := (c.share plan device).kernels.release_withdraws d
    have hshows := Context.scene_shows hd
    rw [after_onDevice (c := c.setShare plan device held) hd]
    refine ⟨hown.steady hd hsteady, ?_, Array.size_setIfInBounds⟩
    have hshows' : (c.scene.setShare plan device held).Shows device d :=
      ⟨hshows.heap, hshows.kernels, hshows.stampAt, hshows.clock, hshows.sinks⟩
    rw [Context.scene_setDevice_lists (c := c.setShare plan device held) hd hsteady.lists,
      Context.scene_setShare, Scene.setDevice_kernels hshows' hsteady hheap]
    refine Scene.shed_withdraw hevents rfl fun k hin hout => hkept k ?_ hout
    have hin' : ((c.scene.kernels device).get? k).isSome := hin
    rwa [hshows.kernels] at hin'

theorem dispose_givesUp : Along (GivesUp info plan) (dispose plan device) := by
  refine Along.get fun c => ?_
  have hrest : Along (GivesUp info plan) (do
      (c.share plan device).frames.entries.forM fun entry => dropFrame plan device entry.1 entry.2
      changeShare plan device ({ · with buffers := [] })
      onDevice device ((c.share plan device).buffers.forM fun b => Operate.free b.address)) :=
    Along.bind (Along.forM fun entry _ => dropFrame_givesUp entry.2) fun _ =>
      Along.bind (changeShare_givesUp (fun s j e h => h) fun _ => rfl) fun _ =>
      onDevice_givesUp (Along.forM fun b _ => free_releases _) plan
  have hfirst : GivesUp info plan c _ := withdraw_givesUp c plan device
  have hforget : changeShare plan device ({ · with events := c.newShare.events, kernels := {} }) c =
      .ok () (c.setShare plan device
        { c.share plan device with events := c.newShare.events, kernels := {} }) := rfl
  rw [after_bind_of_ok hforget]
  cases hrun : onDevice device (c.share plan device).kernels.release (c.setShare plan device
      { c.share plan device with events := c.newShare.events, kernels := {} }) with
  | error e c₂ =>
    rw [after_bind_of_error hrun]
    rwa [after_of_error hrun] at hfirst
  | ok _ c₂ =>
    rw [after_bind_of_ok hrun]
    rw [after_of_ok hrun] at hfirst
    exact Chain.trans hfirst (hrest c₂)

theorem forgetPlan_run (h : OwnLists info c) (plan : Nat) :
    ∃ c', (do
        modify fun c => c.setQueues plan {}
        (List.range c.devices.size).forM fun i => onDevice i ((c.queues plan).cleanupDevice i).1
        modify fun c =>
          { c with
            plans := c.plans.erase plan
            inUse := c.inUse.filter (· != plan)
            resetPlans := plan :: c.resetPlans.filter (· != plan) } : Control Unit) c = .ok () c' ∧
      OwnLists info c' ∧ c'.scene = c.scene.forget plan c.newShare := by
  have hthreads := (h.queues plan).threads
  have hvalues : ∀ i x, x ∈ ((c.queues plan).onDevice i).values ↔
      ∃ t, (c.queues plan).get? i t = some x := fun i x => Table.mem_values_iff (hthreads i)
  have hnodup : ∀ i, ((c.queues plan).onDevice i).values.Nodup := fun i =>
    Table.values_nodup (hthreads i) fun t t' x ht ht' => (h.apart plan t plan t' i x ht ht').2
  obtain ⟨devices, hforM, hsize, hdevices⟩ := forM_onDevice (c := c.setQueues plan {})
    (R := fun i d d' => ∃ ls, d' = { d with lists := ls } ∧ ls.Keyed ∧
      ∀ x, ls.get? x = if x ∈ ((c.queues plan).onDevice i).values then none else d.lists.get? x)
    fun i d hd => by
      obtain ⟨ls, hrun, hlists⟩ := Operate.destroyAll_run (h.devices i d hd).keyed (hnodup i)
        fun x hx => by
          obtain ⟨t, ht⟩ := (hvalues i x).1 hx
          obtain ⟨_, cs, hd', hcs⟩ := h.listed plan i t x ht
          cases hd.symm.trans hd'
          rw [hcs]
          rfl
      exact ⟨_, hrun, ls, rfl, hlists⟩
  let c' : Context :=
    { c.setQueues plan {} with
      devices
      plans := (c.setQueues plan {}).plans.erase plan
      inUse := c.inUse.filter (· != plan)
      resetPlans := plan :: c.resetPlans.filter (· != plan) }
  have hplans : (c.setQueues plan {}).plans.Keyed := h.plans.insert _ _
  have hget : ∀ p, c'.plans.get? p = if plan = p then none else c.plans.get? p := by
    intro p
    show ((c.plans.insert plan _).erase plan).get? p = _
    rw [Table.get?_erase (h.plans.insert _ _), Table.get?_insert]
    split <;> rfl
  have hqueues : ∀ p, c'.queues p = if plan = p then {} else c.queues p := by
    intro p
    unfold Context.queues
    rw [hget]
    split <;> rfl
  have hcloses :
    Closes (fun p _ _ => plan = p) (fun i => ((c.queues plan).onDevice i).values) c c' := by
    refine ⟨hplans.erase plan, fun p => ?_, fun p i t hp => ?_, fun p i t hp => ?_, fun i l => ?_,
      hsize, fun i d hd => ?_⟩
    · rw [hqueues]
      split
      · exact ThreadQueues.keyed_empty
      · exact h.queues p
    · rw [hqueues, if_pos hp]
      rfl
    · rw [hqueues, if_neg hp]
    · rw [hvalues]
      constructor
      · rintro ⟨t, ht⟩
        exact ⟨plan, t, rfl, ht⟩
      · rintro ⟨_, t, rfl, ht⟩
        exact ⟨t, ht⟩
    · obtain ⟨_, hd', ls, rfl, hlists⟩ := hdevices i d hd
      exact ⟨ls, hd', hlists⟩
  refine ⟨c', ?_, hcloses.own h, ?_⟩
  · exact bind_of_ok hforM
  · rw [hcloses.scene h]
    apply Scene.ext
    case share =>
      funext p i
      show c'.share p i = if plan = p then c.newShare else c.share p i
      unfold Context.share
      rw [hget]
      split <;> rfl
    all_goals rfl

/-- A reset gives back what a plan holds and forgets the plan. One that fails leaves
what the plan's threads have recorded. -/
theorem reset_run (h : OwnLists info c) (plan : Nat) :
    OwnLists info (after (reset plan) c) ∧
      Scene.Reset plan c.scene (failure (reset plan) c) (after (reset plan) c).scene := by
  have hshed : Along (GivesUp info plan) ((List.range c.devices.size).forM (dispose plan)) :=
    .forM fun i _ => dispose_givesUp
  obtain ⟨hown₁, hshed₁, hsize⟩ := hshed c h
  have hget : (get : Control Context) c = .ok c c := rfl
  unfold reset
  rw [after_bind_of_ok hget, failure_bind_of_ok hget]
  cases hrun : (List.range c.devices.size).forM (dispose plan) c with
  | error =>
    rw [after_bind_of_error hrun, failure_bind_of_error hrun]
    rw [after_of_error hrun] at hown₁ hshed₁
    exact ⟨hown₁, .stopped hshed₁⟩
  | ok _ c₁ =>
    rw [after_bind_of_ok hrun, failure_bind_of_ok hrun]
    rw [after_of_ok hrun] at hown₁ hshed₁ hsize
    have hget₁ : (get : Control Context) c₁ = .ok c₁ c₁ := rfl
    rw [after_bind_of_ok hget₁, failure_bind_of_ok hget₁, ← hsize]
    obtain ⟨c', hforget, hown', hscene'⟩ := forgetPlan_run hown₁ plan
    rw [after_of_ok hforget, failure_of_ok hforget, hscene']
    exact ⟨hown', .done hshed₁ c₁.newShare_blank⟩

end Control

end Host

end KernelForge
