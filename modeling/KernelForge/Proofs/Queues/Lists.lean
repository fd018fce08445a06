import KernelForge.Proofs.Queues.Scene

/-!
# Every queue has a command list of its own

The queue of a thread stands for one command list of its device, and no two queues for the same one
(`OwnLists`). So a thread can always record, and what it records is at the end of its own list; what
all others have recorded stays.
-/

namespace KernelForge

open List

namespace Device

/-! ## Devices and their lists -/

/-- A command whose cells a device has. -/
def Command.Within (d : Simulator) : Command → Prop
  | .stamp cell => cell < d.stamps.size
  | .read _ _ sink => sink < d.sinks.size
  | _ => True

theorem Command.Within.mono {d d' : Simulator} {c : Command} (h : c.Within d)
    (hstamps : d.stamps.size ≤ d'.stamps.size) (hsinks : d.sinks.size ≤ d'.sinks.size) :
    c.Within d' := by
  cases c with
  | stamp => exact Nat.lt_of_lt_of_le h hstamps
  | read => exact Nat.lt_of_lt_of_le h hsinks
  | write | launch | barrier => trivial

namespace Simulator

variable {d d' : Simulator} {info : Info}

/-- A new cell has no time in it, as if it had been there before. -/
theorem stampAt_push (d : Simulator) :
    { d with stamps := d.stamps.push 0 }.stampAt = d.stampAt := by
  funext cell
  unfold stampAt
  rw [Array.getD_eq_getD_getElem?, Array.getD_eq_getD_getElem?, Array.getElem?_push]
  split
  · next h => rw [h, Array.getElem?_eq_none (Nat.le_refl _)]; rfl
  · rfl

/-- The kernels of a device have handles it has given out. -/
def Handed (d : Simulator) : Prop := ∀ h ∈ d.kernels.keys, h ≤ d.lastHandle

/-- What an action leaves of a device that neither records nor runs commands. -/
structure Steady (d d' : Simulator) : Prop where
  info : d'.info = d.info
  lists : d'.lists = d.lists
  stampAt : d'.stampAt = d.stampAt
  clock : d'.clock = d.clock
  sinks : d'.sinks = d.sinks
  lastHandle : d.lastHandle ≤ d'.lastHandle
  stamps : d.stamps.size ≤ d'.stamps.size
  handed : d.Handed → d'.Handed

instance : Chain Steady where
  refl _ := ⟨rfl, rfl, rfl, rfl, rfl, Nat.le_refl _, Nat.le_refl _, id⟩
  trans a b := ⟨b.info.trans a.info, b.lists.trans a.lists, b.stampAt.trans a.stampAt,
    b.clock.trans a.clock, b.sinks.trans a.sinks, Nat.le_trans a.lastHandle b.lastHandle,
    Nat.le_trans a.stamps b.stamps, b.handed ∘ a.handed⟩

/-- The lists and kernels of a device have handles it has given out, and the commands
cells it has. -/
structure Orderly (d : Simulator) (info : Info) : Prop where
  about : d.info = info
  keyed : d.lists.Keyed
  handles : ∀ l cs, d.lists.get? l = some cs → l ≤ d.lastHandle
  within : ∀ l cs, d.lists.get? l = some cs → ∀ x ∈ cs, x.Within d
  handed : d.Handed

theorem Orderly.steady (h : d.Orderly info) (hs : d.Steady d') : d'.Orderly info where
  about := hs.info.trans h.about
  keyed := hs.lists ▸ h.keyed
  handles l cs hl := Nat.le_trans (h.handles l cs (hs.lists ▸ hl)) hs.lastHandle
  within l cs hl x hx := (h.within l cs (hs.lists ▸ hl) x hx).mono hs.stamps
    (Nat.le_of_eq (congrArg Array.size hs.sinks.symm))
  handed := hs.handed h.handed

theorem Orderly.setList {lists : Table Nat (List Command)} {list : Nat} {before cs : List Command}
    (h : d.Orderly info) (hbefore : d.lists.get? list = some before) (hkeyed : lists.Keyed)
    (hget : ∀ l, lists.get? l = if list = l then some cs else d.lists.get? l)
    (hcs : ∀ x ∈ cs, x.Within d) : { d with lists }.Orderly info where
  about := h.about
  keyed := hkeyed
  handles l cs' hl := by
    have hl' : lists.get? l = some cs' := hl
    rw [hget] at hl'
    split at hl'
    · next heq => exact heq ▸ h.handles list before hbefore
    · exact h.handles l cs' hl'
  within l cs' hl x hx := by
    have hl' : lists.get? l = some cs' := hl
    rw [hget] at hl'
    split at hl'
    · cases hl'
      exact hcs x hx
    · exact h.within l cs' hl' x hx
  handed := h.handed

/-- A new list, with the next handle. -/
theorem Orderly.createList (h : d.Orderly info) :
    { d with
      lastHandle := d.lastHandle + 1
      lists := d.lists.insert (d.lastHandle + 1) [] }.Orderly info where
  about := h.about
  keyed := h.keyed.insert _ _
  handles l cs hl := by
    rcases Table.get?_insert_cases hl with ⟨rfl, -⟩ | hl
    · exact Nat.le_refl _
    · exact Nat.le_succ_of_le (h.handles l cs hl)
  within l cs hl := by
    rcases Table.get?_insert_cases hl with ⟨-, rfl⟩ | hl
    · exact nofun
    · exact h.within l cs hl
  handed x hx := Nat.le_succ_of_le (h.handed x hx)

theorem orderly_new (info : Info) (readings : List Nat) :
    { Simulator.new info with readings }.Orderly info where
  about := rfl
  keyed := nodup_nil
  handles := nofun
  within := nofun
  handed := nofun

end Simulator

namespace Operate

open Simulator (Steady)

variable {d : Simulator} {list : Nat} {before : List Command}

/-! ## Recording -/

theorem record_run (h : d.lists.get? list = some before) (x : Command) :
    record list x d = .ok () { d with lists := d.lists.insert list (before ++ [x]) } := by
  have hrun := commands_run list d
  rw [h] at hrun
  exact bind_of_ok hrun

/-- Commands are recorded one after another, and the other lists stay. -/
theorem recordAll_run (h : d.lists.get? list = some before) (cs : List Command) :
    ∃ lists, cs.forM (record list) d = .ok () { d with lists } ∧
      (∀ l, lists.get? l = if list = l then some (before ++ cs) else d.lists.get? l) ∧
      (d.lists.Keyed → lists.Keyed) := by
  induction cs generalizing d before with
  | nil =>
    refine ⟨d.lists, rfl, fun l => ?_, id⟩
    split
    · next heq => rw [← heq, h, append_nil]
    · rfl
  | cons x cs ih =>
    obtain ⟨lists, hrest, hget, hkeyed⟩ := ih (d := { d with
      lists := d.lists.insert list (before ++ [x]) }) (Table.get?_insert_self _ _ _)
    refine ⟨lists, ?_, fun l => ?_, fun hk => hkeyed (hk.insert _ _)⟩
    · exact (bind_of_ok (record_run h x)).trans hrest
    · rw [hget, Table.get?_insert, append_assoc]
      split <;> rfl

/-- Work that records commands, between two timestamps. -/
theorem bracket_run {work : Operate Unit} {cs : List Command} (start stop : Nat)
    (hwork : ∀ d' : Simulator, d'.info = d.info → work d' = cs.forM (record list) d')
    (h : d.lists.get? list = some before) :
    ∃ lists, (do record list (.stamp start); work; record list (.stamp stop) : Operate Unit) d =
        .ok () { d with lists } ∧
      (∀ l, lists.get? l = if list = l then some (before ++ (.stamp start :: (cs ++ [.stamp stop])))
        else d.lists.get? l) ∧
      (d.lists.Keyed → lists.Keyed) := by
  have hsame : (do record list (.stamp start); work; record list (.stamp stop) : Operate Unit) d =
      (.stamp start :: (cs ++ [.stamp stop])).forM (record list) d := by
    simp only [forM_eq_forM, forM_cons, forM_append, forM_nil, bind_pure_unit]
    show EStateM.bind (record list (.stamp start)) _ d = EStateM.bind _ _ d
    rw [EStateM.bind, EStateM.bind, record_run h]
    show EStateM.bind work _ _ = EStateM.bind (cs.forM (record list)) _ _
    rw [EStateM.bind, EStateM.bind,
      hwork { d with lists := d.lists.insert list (before ++ [.stamp start]) } rfl]
  rw [hsame]
  exact recordAll_run h _

end Operate

end Device

namespace Host

open Device (Info Simulator Command Operate)

/-- Every queue stands for a command list of its device, every list for a queue, and
no two queues for the same list. -/
structure OwnLists (info : Nat → Info) (c : Context) : Prop where
  plans : c.plans.Keyed
  queues : ∀ p, (c.queues p).Keyed
  devices : ∀ (i : Nat) (d : Simulator), c.devices[i]? = some d → d.Orderly (info i)
  listed : ∀ p i t l, (c.queues p).get? i t = some l →
    ∃ d cs, c.devices[i]? = some d ∧ d.lists.get? l = some cs
  apart : ∀ p t p' t' i l, (c.queues p).get? i t = some l → (c.queues p').get? i t' = some l →
    p = p' ∧ t = t'
  owned : ∀ (i : Nat) (d : Simulator) l cs, c.devices[i]? = some d → d.lists.get? l = some cs →
    ∃ p t, (c.queues p).get? i t = some l

namespace OwnLists

variable {info : Nat → Info} {c c' : Context} {device : Nat} {d d' : Simulator}

variable (h : OwnLists info c)

include h

/-- Only queues and devices count. -/
theorem same (hplans : c'.plans.Keyed)
    (hqueues : ∀ p, c'.queues p = c.queues p) (hdevices : c'.devices = c.devices) :
    OwnLists info c' where
  plans := hplans
  queues p := hqueues p ▸ h.queues p
  devices i d hd := h.devices i d (hdevices ▸ hd)
  listed p i t l hl := hdevices ▸ h.listed p i t l (hqueues p ▸ hl)
  apart p t p' t' i l hl hl' := h.apart p t p' t' i l (hqueues p ▸ hl) (hqueues p' ▸ hl')
  owned i d l cs hd hl := by
    obtain ⟨p, t, hq⟩ := h.owned i d l cs (hdevices ▸ hd) hl
    exact ⟨p, t, (hqueues p).symm ▸ hq⟩

theorem setShare (plan device : Nat) (s : Share) : OwnLists info (c.setShare plan device s) :=
  h.same (h.plans.insert _ _) (fun p => c.queues_setShare plan device p s) rfl

/-- Setting the queues that are there. -/
theorem setQueues_self (plan : Nat) :
    OwnLists info (c.setQueues plan (c.queues plan)) ∧
      (c.setQueues plan (c.queues plan)).scene = c.scene ∧
      (c.setQueues plan (c.queues plan)).queues plan = c.queues plan := by
  have hsame : ∀ p, (c.setQueues plan (c.queues plan)).queues p = c.queues p := by
    intro p
    rw [Context.queues_setQueues]
    split
    · next heq => rw [heq]
    · rfl
  refine ⟨h.same (h.plans.insert _ _) hsame rfl, Context.scene_congr hsame ?_ rfl, hsame plan⟩
  funext p i
  exact c.share_setQueues plan p i _

/-- A device that keeps its lists, with commands added or run. -/
theorem setDevice (hd : c.devices[device]? = some d) (hd' : d'.Orderly (info device))
    (hlists : ∀ l, (d'.lists.get? l).isSome = (d.lists.get? l).isSome) :
    OwnLists info (c.setDevice device d') := by
  have hself := Context.getElem?_setDevice_self hd d'
  have hother : ∀ i, device ≠ i → (c.setDevice device d').devices[i]? = c.devices[i]? := by
    intro i hi
    rw [Context.getElem?_setDevice, if_neg hi]
  refine ⟨h.plans, h.queues, fun i e he => ?_, fun p i t l hl => ?_, h.apart, ?_⟩
  · by_cases hi : device = i
    · subst hi
      cases hself.symm.trans he
      exact hd'
    · exact h.devices i e (hother i hi ▸ he)
  · obtain ⟨e, cs, he, hcs⟩ := h.listed p i t l hl
    by_cases hi : device = i
    · subst hi
      cases hd.symm.trans he
      have hsome := hlists l
      rw [hcs] at hsome
      obtain ⟨cs', hcs'⟩ := Option.isSome_iff_exists.1 hsome
      exact ⟨d', cs', hself, hcs'⟩
    · exact ⟨e, cs, (hother i hi).trans he, hcs⟩
  · intro i e l cs he hcs
    by_cases hi : device = i
    · subst hi
      cases hself.symm.trans he
      have hsome := hlists l
      rw [hcs] at hsome
      obtain ⟨cs', hcs'⟩ := Option.isSome_iff_exists.1 hsome.symm
      exact h.owned device d l cs' hd hcs'
    · exact h.owned i e l cs (hother i hi ▸ he) hcs

theorem steady (hd : c.devices[device]? = some d) (hs : d.Steady d') :
    OwnLists info (c.setDevice device d') :=
  h.setDevice hd ((h.devices device d hd).steady hs) fun l => by rw [hs.lists]

theorem pending_get {plan thread list : Nat} (hq : (c.queues plan).get? device thread = some list) :
    ∃ d, c.devices[device]? = some d ∧ d.lists.get? list = some (c.pending plan device thread) := by
  obtain ⟨d, cs, hd, hcs⟩ := h.listed plan device thread list hq
  exact ⟨d, hd, by rw [Context.pending_eq hq hd hcs, hcs]⟩

/-- A device has the cells of all commands that are recorded on it. -/
theorem pending_within (hd : c.devices[device]? = some d) (plan thread : Nat) :
    ∀ x ∈ c.pending plan device thread, x.Within d := by
  cases hq : (c.queues plan).get? device thread with
  | none =>
    rw [Context.pending_of_none hq]
    exact nofun
  | some list =>
    obtain ⟨_, hd', hcs⟩ := h.pending_get hq
    cases hd.symm.trans hd'
    exact (h.devices device d hd).within list _ hcs

/-- Commands are recorded or run in one list only. -/
theorem scene_setList {plan thread list : Nat} {cs : List Command}
    (hq : (c.queues plan).get? device thread = some list) (hd : c.devices[device]? = some d)
    (hlists : ∀ l, d'.lists.get? l = if list = l then some cs else d.lists.get? l) :
    (c.setDevice device d').scene =
      (c.scene.setDevice device d').setPending plan device thread cs := by
  rw [Context.scene_setDevice hd]
  apply Scene.ext
  · funext p i t
    show (c.setDevice device d').pending p i t =
      if plan = p ∧ device = i ∧ thread = t then cs else c.pending p i t
    have hself := Context.getElem?_setDevice_self hd d'
    by_cases hi : device = i
    · subst hi
      cases hl : (c.queues p).get? device t with
      | none =>
        rw [Context.pending_of_none hl,
          Context.pending_of_none (c := c.setDevice device d') hl, if_neg]
        rintro ⟨rfl, -, rfl⟩
        cases hq.symm.trans hl
      | some l =>
        obtain ⟨_, before, hd₁, hbefore⟩ := h.listed p device t l hl
        cases hd.symm.trans hd₁
        have hget := hlists l
        by_cases heq : list = l
        · subst heq
          obtain ⟨rfl, rfl⟩ := h.apart plan thread p t device list hq hl
          rw [if_pos rfl] at hget
          rw [if_pos ⟨rfl, rfl, rfl⟩]
          exact Context.pending_eq (c := c.setDevice device d') hl hself hget
        · rw [if_neg heq] at hget
          rw [if_neg, Context.pending_eq hl hd hbefore]
          · exact Context.pending_eq (c := c.setDevice device d') hl hself (hget.trans hbefore)
          · rintro ⟨rfl, -, rfl⟩
            exact heq (Option.some.inj (hq.symm.trans hl))
    · rw [if_neg fun h => hi h.2.1]
      unfold Context.pending
      rw [Context.getElem?_setDevice, if_neg hi]
      rfl
  all_goals rfl

end OwnLists

/-! ## Asking for a queue -/

namespace Context

variable {info : Nat → Info} {c : Context} {plan device thread : Nat} {d : Simulator}

def openQueue (c : Context) (plan device thread : Nat) (d : Simulator) : Context :=
  (c.setDevice device { d with
    lastHandle := d.lastHandle + 1
    lists := d.lists.insert (d.lastHandle + 1) [] }).setQueues plan
      ((c.queues plan).insert device thread (d.lastHandle + 1))

theorem get?_openQueue (c : Context) (plan device thread : Nat) (d : Simulator) (p i t : Nat) :
    ((c.openQueue plan device thread d).queues p).get? i t =
      if plan = p ∧ device = i ∧ thread = t then some (d.lastHandle + 1)
      else (c.queues p).get? i t := by
  unfold openQueue
  rw [queues_setQueues]
  by_cases hp : plan = p
  · subst hp
    rw [if_pos rfl, ThreadQueues.get?_insert]
    simp
  · rw [if_neg hp, if_neg fun h => hp h.1]
    rfl

theorem lists_openQueue (plan thread : Nat) (hd : c.devices[device]? = some d)
    {i : Nat} {e : Simulator}
    (he : c.devices[i]? = some e) :
    ∃ e', (c.openQueue plan device thread d).devices[i]? = some e' ∧
      ∀ l, e'.lists.get? l =
        if device = i ∧ d.lastHandle + 1 = l then some [] else e.lists.get? l := by
  by_cases hi : device = i
  · subst hi
    cases hd.symm.trans he
    refine ⟨_, getElem?_setDevice_self hd _, fun l => ?_⟩
    simp [Table.get?_insert]
  · refine ⟨e, (getElem?_setDevice c _ i).trans ((if_neg hi).trans he), fun l => ?_⟩
    rw [if_neg fun h => hi h.1]

theorem new_handle (h : OwnLists info c) (hd : c.devices[device]? = some d) {p t l : Nat}
    (hl : (c.queues p).get? device t = some l) : d.lastHandle + 1 ≠ l := by
  obtain ⟨_, cs, hd₁, hcs⟩ := h.listed p device t l hl
  cases hd.symm.trans hd₁
  have hle := (h.devices device d hd).handles l cs hcs
  omega

/-- A new queue stands for a new list. -/
theorem openQueue_own (h : OwnLists info c) (hd : c.devices[device]? = some d)
    (hnone : (c.queues plan).get? device thread = none) :
    OwnLists info (c.openQueue plan device thread d) := by
  have hsize : (c.openQueue plan device thread d).devices.size = c.devices.size :=
    Array.size_setIfInBounds
  refine ⟨h.plans.insert _ _, fun p => ?_, fun i e' he' => ?_, fun p i t l hl => ?_,
    fun p t p' t' i l hl hl' => ?_, fun i e' l cs he' hcs => ?_⟩
  · unfold openQueue
    rw [queues_setQueues]
    split
    · exact (h.queues plan).insert _ _ _
    · exact h.queues p
  · by_cases hi : device = i
    · subst hi
      have hself : (c.openQueue plan device thread d).devices[device]? = _ :=
        getElem?_setDevice_self hd _
      cases hself.symm.trans he'
      exact (h.devices device d hd).createList
    · refine h.devices i e' ?_
      have hother : (c.openQueue plan device thread d).devices[i]? = _ := getElem?_setDevice c _ i
      rwa [hother, if_neg hi] at he'
  · rw [get?_openQueue] at hl
    split at hl
    · next heq =>
      obtain ⟨rfl, rfl, rfl⟩ := heq
      cases hl
      obtain ⟨e', he', hlists⟩ := lists_openQueue plan thread hd hd
      exact ⟨e', [], he', by rw [hlists, if_pos ⟨rfl, rfl⟩]⟩
    · obtain ⟨e, cs, he, hcs⟩ := h.listed p i t l hl
      obtain ⟨e', he', hlists⟩ := lists_openQueue plan thread hd he
      refine ⟨e', cs, he', ?_⟩
      rw [hlists, if_neg, hcs]
      rintro ⟨rfl, heq⟩
      exact new_handle h hd hl heq
  · rw [get?_openQueue] at hl hl'
    split at hl
    · next heq =>
      obtain ⟨rfl, rfl, rfl⟩ := heq
      split at hl'
      · next heq' => exact ⟨heq'.1, heq'.2.2⟩
      · exact absurd (Option.some.inj hl) (new_handle h hd hl')
    · split at hl'
      · next heq' =>
        obtain ⟨rfl, rfl, rfl⟩ := heq'
        exact absurd (Option.some.inj hl') (new_handle h hd hl)
      · exact h.apart p t p' t' i l hl hl'
  · have he := Array.getElem?_eq_getElem (hsize ▸ (Array.getElem?_eq_some_iff.1 he').1)
    obtain ⟨e'', he'', hlists⟩ := lists_openQueue plan thread hd he
    cases he'.symm.trans he''
    rw [hlists] at hcs
    split at hcs
    · next heq =>
      obtain ⟨rfl, rfl⟩ := heq
      exact ⟨plan, thread, by rw [get?_openQueue, if_pos ⟨rfl, rfl, rfl⟩]⟩
    · obtain ⟨p, t, hq⟩ := h.owned i _ l cs he hcs
      refine ⟨p, t, ?_⟩
      rw [get?_openQueue, if_neg, hq]
      rintro ⟨rfl, rfl, rfl⟩
      cases hnone.symm.trans hq

/-- A thread without a queue has recorded nothing, and neither has one with a new queue. -/
theorem openQueue_scene (h : OwnLists info c) (hd : c.devices[device]? = some d)
    (hnone : (c.queues plan).get? device thread = none) :
    (c.openQueue plan device thread d).scene = c.scene := by
  have hpending : (c.openQueue plan device thread d).pending = c.pending := by
    funext p i t
    cases hl : (c.queues p).get? i t with
    | none =>
      rw [pending_of_none hl]
      by_cases heq : plan = p ∧ device = i ∧ thread = t
      · obtain ⟨rfl, rfl, rfl⟩ := heq
        obtain ⟨e', he', hlists⟩ := lists_openQueue plan thread hd hd
        have hget := c.get?_openQueue plan device thread d plan device thread
        rw [if_pos ⟨rfl, rfl, rfl⟩] at hget
        exact pending_eq hget he' (by rw [hlists, if_pos ⟨rfl, rfl⟩])
      · exact pending_of_none (by rw [get?_openQueue, if_neg heq, hl])
    | some l =>
      obtain ⟨e, cs, he, hcs⟩ := h.listed p i t l hl
      obtain ⟨e', he', hlists⟩ := lists_openQueue plan thread hd he
      have hget := c.get?_openQueue plan device thread d p i t
      rw [if_neg, hl] at hget
      · rw [pending_eq hl he hcs]
        refine pending_eq hget he' ?_
        rw [hlists, if_neg, hcs]
        rintro ⟨rfl, heq⟩
        exact new_handle h hd hl heq
      · rintro ⟨rfl, rfl, rfl⟩
        cases hnone.symm.trans hl
  unfold openQueue at hpending ⊢
  rw [scene_setQueues, hpending, scene_setDevice hd]
  exact congrArg (fun s : Scene => { s with pending := c.pending })
    (Scene.setDevice_self ((scene_shows hd).relist _ _))

end Context

namespace Control

variable {info : Nat → Info} {c : Context} {plan device thread : Nat} {d d' : Simulator}

/-! ## Plans in use -/

theorem share_track (c : Context) (plan : Nat) : (after (track plan) c).share = c.share := by
  funext p i
  unfold Context.share
  show (((c.plans.insert plan ((c.plans.get? plan).getD {})).get? p).bind _).getD _ = _
  rw [Table.get?_insert]
  split
  · next heq =>
    subst heq
    cases c.plans.get? plan with
    | none | some => rfl
  · rfl

theorem queues_track (c : Context) (plan p : Nat) :
    (after (track plan) c).queues p = c.queues p := by
  show (((c.plans.insert plan ((c.plans.get? plan).getD {})).get? p).getD {}).queues = _
  rw [Table.get?_insert]
  split
  · next heq => rw [heq]; rfl
  · rfl

theorem track_scene (c : Context) (plan : Nat) : (after (track plan) c).scene = c.scene :=
  Context.scene_congr (queues_track c plan) (share_track c plan) rfl

theorem track_own (h : OwnLists info c) (plan : Nat) : OwnLists info (after (track plan) c) :=
  h.same (h.plans.insert _ _) (queues_track c plan) rfl

theorem deviceInfo_run (hd : c.devices[device]? = some d) : deviceInfo device c = .ok d.info c := by
  have hrun : deviceInfo device c = .ok d.info (c.setDevice device d) := onDevice_ok hd rfl
  rw [hrun, Context.setDevice_self hd]

theorem claim_run (hd : c.devices[device]? = some d) :
    claim plan device c = .ok (c.share plan device) (after (track plan) c) := by
  show EStateM.bind (deviceInfo device) _ c = _
  rw [EStateM.bind, deviceInfo_run hd, ← share_track c plan]
  rfl

theorem claim_of_none (hd : c.devices[device]? = none) :
    claim plan device c = .error (.unknownDevice device) c :=
  bind_of_error (onDevice_of_none hd _)

/-- On a device that exists, a thread gets a queue, and nothing else changes. -/
theorem queue_run (h : OwnLists info c) (hd : c.devices[device]? = some d) (plan thread : Nat) :
    ∃ list c' d', queue plan device thread c = .ok list c' ∧ OwnLists info c' ∧
      c'.scene = c.scene ∧ (c'.queues plan).get? device thread = some list ∧
      c'.devices[device]? = some d' ∧ d'.stamps = d.stamps := by
  have hown := track_own h plan
  have hscene := track_scene c plan
  have hqueues := queues_track c plan plan
  have hd₁ : (after (track plan) c).devices[device]? = some d := hd
  have hrun : ∀ list q d', (c.queues plan).acquire device thread d = .ok (list, q) d' →
      queue plan device thread c =
        .ok list (((after (track plan) c).setDevice device d').setQueues plan q) := by
    intro list q d' hacquire
    refine (bind_of_ok (claim_run hd)).trans ?_
    show EStateM.bind (onDevice device
      (((after (track plan) c).queues plan).acquire device thread)) _ (after (track plan) c) = _
    rw [hqueues, EStateM.bind, onDevice_ok hd₁ hacquire]
    rfl
  cases hl : (c.queues plan).get? device thread with
  | some list =>
    have hacquire : (c.queues plan).acquire device thread d = .ok (list, c.queues plan) d := by
      unfold ThreadQueues.acquire
      rw [hl]
      rfl
    have hfinal := hrun list (c.queues plan) d hacquire
    rw [Context.setDevice_self hd₁, ← hqueues] at hfinal
    obtain ⟨hown', hscene', hqueues'⟩ := hown.setQueues_self plan
    refine ⟨list, _, d, hfinal, hown', hscene'.trans hscene, ?_, hd₁, rfl⟩
    rw [hqueues', hqueues, hl]
  | none =>
    have hacquire : (c.queues plan).acquire device thread d =
        .ok (d.lastHandle + 1, (c.queues plan).insert device thread (d.lastHandle + 1))
          { d with
            lastHandle := d.lastHandle + 1, lists := d.lists.insert (d.lastHandle + 1) [] } := by
      unfold ThreadQueues.acquire
      rw [hl]
      rfl
    have hnone : ((after (track plan) c).queues plan).get? device thread = none := hqueues ▸ hl
    have hfinal := hrun _ _ _ hacquire
    rw [← hqueues] at hfinal
    refine ⟨_, (after (track plan) c).openQueue plan device thread d, _, hfinal,
      Context.openQueue_own hown hd₁ hnone, ?_, ?_, Context.getElem?_setDevice_self hd₁ _, rfl⟩
    · rw [Context.openQueue_scene hown hd₁ hnone, hscene]
    · rw [Context.get?_openQueue, if_pos ⟨rfl, rfl, rfl⟩]

end Control

end Host

end KernelForge
