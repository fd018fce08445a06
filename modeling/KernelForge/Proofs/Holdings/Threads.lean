import KernelForge.Proofs.Holdings.Operations

/-!
# Each thread has its own queue

Threads ask for queues on devices and have them cleaned up again, in any order, while kernels take
handles of the same devices. A handle stays with the thread it was given to until that thread's
queue is cleaned up, and then comes up no more.
-/

namespace KernelForge.Host

open List hiding get
open Device (Info Simulator Operate)
open Function (update update_eq_self update_of_ne update_self)
open ThreadQueues (acquire holds holds_erase keyed_empty)

/-! ## Queues and their devices -/

/-- Queues of threads, and the devices they are on. -/
structure Fleet where
  queues : ThreadQueues := {}
  devices : Nat → Simulator

namespace Fleet

/-- Act on a device; the answer, and the fleet after it. -/
def act {α : Type} (f : Fleet) (device : Nat) (x : Operate α) : Except Error α × Fleet :=
  (match x (f.devices device) with
    | .ok a _ => .ok a
    | .error e _ => .error e,
  { f with devices := update f.devices device (after x (f.devices device)) })

def get (f : Fleet) (device thread : Nat) : Except Error Nat × Fleet :=
  match f.act device (f.queues.acquire device thread) with
  | (.ok (list, queues), f') => (.ok list, { f' with queues })
  | (.error e, f') => (.error e, f')

def cleanup (f : Fleet) (device thread : Nat) : Except Error Bool × Fleet :=
  let (x, queues) := f.queues.cleanup device thread
  { f with queues }.act device x

def cleanupDevice (f : Fleet) (device : Nat) : Except Error Unit × Fleet :=
  let (x, queues) := f.queues.cleanupDevice device
  { f with queues }.act device x

end Fleet

/-- What is asked of queues and devices. -/
inductive QueueCall where
  | get (device thread : Nat)
  | cleanup (device thread : Nat)
  | cleanupDevice (device : Nat)
  /-- A kernel takes a handle of the device, too. -/
  | install (device : Nat) (binary : List UInt8) (entry : String)

namespace QueueCall

def gets (device thread : Nat) : QueueCall → Bool
  | .get d t => d == device && t == thread
  | _ => false

def cleans (device thread : Nat) : QueueCall → Bool
  | .cleanup d t => d == device && t == thread
  | .cleanupDevice d => d == device
  | _ => false

/-- Whether a thread has a queue after calls: the last one that was about it asked for one. -/
def leaves (device thread : Nat) (calls : List QueueCall) : Bool :=
  calls.foldl (fun has c => (has || c.gets device thread) && !c.cleans device thread) false

end QueueCall

open QueueCall (cleans gets)

namespace Fleet

def step (f : Fleet) : QueueCall → Fleet
  | .get device thread => (f.get device thread).2
  | .cleanup device thread => (f.cleanup device thread).2
  | .cleanupDevice device => (f.cleanupDevice device).2
  | .install device binary entry => (f.act device (Operate.install binary entry)).2

/-- The fleet after calls, from devices with nothing on them. -/
def reached (info : Nat → Info) (calls : List QueueCall) : Fleet :=
  calls.foldl step { devices := fun device => Simulator.new (info device) }

end Fleet

/-! ## Listed devices -/

namespace ThreadQueues

variable {q : ThreadQueues}

theorem onDevice_eraseDevice (hq : q.byDevice.Keyed) (device i : Nat) :
    (q.eraseDevice device).onDevice i = if device = i then ∅ else q.onDevice i := by
  unfold eraseDevice onDevice
  rw [Table.get?_erase hq]
  split <;> rfl

/-- The tables have no entry twice, and a device is listed only while a thread has a
queue on it. -/
structure Filed (q : ThreadQueues) : Prop extends q.Keyed where
  listed : ∀ device t, q.byDevice.get? device = some t → t.isEmpty = false

namespace Filed

theorem insert (hq : q.Filed) (device thread list : Nat) : (q.insert device thread list).Filed where
  toKeyed := hq.toKeyed.insert device thread list
  listed i t h := by
    rcases Table.get?_insert_cases h with ⟨-, rfl⟩ | h
    · have hsome := (q.onDevice device).get?_insert_self thread list
      simpa [Table.isEmpty] using ne_nil_of_mem (Table.mem_entries_of_get? hsome)
    · exact hq.listed i t h

/-- A device that is no longer listed. -/
theorem eraseDevice (hq : q.Filed) (device : Nat) : (q.eraseDevice device).Filed where
  devices := hq.devices.erase device
  threads i := by
    rw [onDevice_eraseDevice hq.devices]
    split
    · exact nodup_nil
    · exact hq.threads i
  listed i t h := by
    unfold ThreadQueues.eraseDevice at h
    rw [Table.get?_erase hq.devices] at h
    split at h
    · cases h
    · exact hq.listed i t h

theorem erase (hq : q.Filed) (device thread : Nat) : (q.erase device thread).Filed where
  toKeyed := hq.toKeyed.erase device thread
  listed i t h := by
    unfold ThreadQueues.erase at h
    dsimp only at h
    split at h
    · exact (hq.eraseDevice device).listed i t h
    · next hrest =>
      rcases Table.get?_insert_cases h with ⟨-, rfl⟩ | h
      · simpa using hrest
      · exact hq.listed i t h

/-- A device is listed exactly while a thread has a queue on it. -/
theorem hasDevice_iff (hq : q.Filed) (device : Nat) :
    q.hasDevice device = true ↔ ∃ thread, q.contains device thread = true := by
  unfold hasDevice Table.contains
  constructor
  · intro h
    obtain ⟨t, ht⟩ := Option.isSome_iff_exists.1 h
    obtain ⟨e, he⟩ := exists_mem_of_ne_nil t.entries
      (by simpa [Table.isEmpty] using hq.listed device t ht)
    refine ⟨e.1, ?_⟩
    rw [contains, get?, onDevice, ht]
    exact Table.get?_isSome_of_mem he
  · rintro ⟨thread, h⟩
    cases ht : q.byDevice.get? device with
    | none =>
      rw [contains, get?, onDevice, ht] at h
      cases h
    | some => rfl

end Filed

end ThreadQueues

/-! ## Handles -/

/-- Handles are given out in ascending order. -/
def HandlesGrow (d d' : Simulator) : Prop := d.lastHandle ≤ d'.lastHandle

instance : Chain HandlesGrow := ⟨fun _ => Nat.le_refl _, Nat.le_trans⟩

theorem destroyQueue_grows (list : Nat) : Along HandlesGrow (Operate.destroyQueue list) := by
  have hcommands : Along HandlesGrow (Operate.commands list) := by
    refine .getThen fun d => ?_
    split
    · exact .pure _
    · exact .throw _
  exact hcommands.bind fun _ _ => Nat.le_refl _

theorem install_grows (binary : List UInt8) (entry : String) :
    Along HandlesGrow (Operate.install binary entry) :=
  (Along.ofExcept _).bind fun _ _ => Nat.le_succ _

namespace Fleet

variable {info : Nat → Info} {f f' : Fleet} {device thread list : Nat} {calls : List QueueCall}
  {d' : Simulator}

theorem act_ok {α : Type} {x : Operate α} {a : α} {d : Simulator}
    (h : x (f.devices device) = .ok a d) :
    f.act device x = (.ok a, { f with devices := update f.devices device d }) := by
  rw [act, after_of_ok h, h]

theorem update_grows (h : HandlesGrow (f.devices device) d') (i : Nat) :
    HandlesGrow (f.devices i) (update f.devices device d' i) := by
  by_cases hi : i = device
  · rw [hi, update_self]
    exact h
  · rw [update_of_ne hi]
    exact Nat.le_refl _

/-! ## What a call does -/

/-- The command lists on each device are those of the threads' queues. -/
structure Matched (info : Nat → Info) (f : Fleet) : Prop where
  filed : f.queues.Filed
  out : ∀ i, ∃ kernels : List Nat,
    (f.devices i).GivesOut (info i) (f.queues.holds i ++ kernels.map .kernel)

/-- What a call does to the queues of threads, and to the handles still to come. -/
structure Moves (f : Fleet) (c : QueueCall) (f' : Fleet) : Prop where
  handles : ∀ i, HandlesGrow (f.devices i) (f'.devices i)
  stays : ∀ i t, c.gets i t = false → c.cleans i t = false →
    f'.queues.get? i t = f.queues.get? i t
  cleaned : ∀ i t, c.cleans i t = true → f'.queues.get? i t = none
  given : ∀ i t, c.gets i t = true → ∃ list, f'.queues.get? i t = some list ∧
    (f.queues.get? i t = some list ∨ f.queues.get? i t = none ∧ (f.devices i).lastHandle < list)

section

variable (hf : f.Matched info)

include hf

/-- A call on one device leaves the queues of the others. -/
theorem Matched.change {q : ThreadQueues} (hq : q.Filed)
    (hother : ∀ i, i ≠ device → q.onDevice i = f.queues.onDevice i)
    (kernels : List Nat) (hd' : d'.GivesOut (info device) (q.holds device ++ kernels.map .kernel)) :
    Matched info ⟨q, update f.devices device d'⟩ where
  filed := hq
  out i := by
    show ∃ kernels : List Nat, (update f.devices device d' i).GivesOut (info i)
      (q.holds i ++ kernels.map .kernel)
    by_cases hi : i = device
    · subst hi
      rw [update_self]
      exact ⟨kernels, hd'⟩
    · rw [update_of_ne hi, holds, hother i hi]
      exact hf.out i

/-- A thread gets the queue it has, or a new one. -/
theorem get_moves (device thread : Nat) :
    ∃ list, (f.get device thread).1 = .ok list ∧
      (f.get device thread).2.queues.get? device thread = some list ∧
      (f.get device thread).2.Matched info ∧
      f.Moves (.get device thread) (f.get device thread).2 := by
  cases h : f.queues.get? device thread with
  | some list =>
    have hrun : f.queues.acquire device thread (f.devices device) =
        .ok (list, f.queues) (f.devices device) := by
      unfold acquire
      rw [h]
      rfl
    have hget : f.get device thread = (.ok list, f) := by
      rw [get, act_ok hrun, update_eq_self]
    rw [hget]
    refine ⟨list, rfl, h, hf, fun _ => Nat.le_refl _, fun _ _ _ _ => rfl, nofun, fun i t hc => ?_⟩
    obtain ⟨rfl, rfl⟩ : device = i ∧ thread = t := by simpa [gets] using hc
    exact ⟨list, h, .inl h⟩
  | none =>
    obtain ⟨kernels, hd⟩ := hf.out device
    obtain ⟨list, d', hrun, hd'⟩ := Operate.createQueue_gives hd
    have hnew : (f.devices device).lastHandle < list ∧ list ≤ d'.lastHandle := by
      cases hrun
      exact ⟨Nat.lt_succ_self _, Nat.le_refl _⟩
    have hacquire : f.queues.acquire device thread (f.devices device) =
        .ok (list, f.queues.insert device thread list) d' := by
      unfold acquire
      rw [h]
      exact bind_of_ok hrun
    have hget : f.get device thread = (.ok list,
        ⟨f.queues.insert device thread list, update f.devices device d'⟩) := by
      rw [get, act_ok hacquire]
    have hview := f.queues.get?_insert device thread list
    rw [hget]
    refine ⟨list, rfl, by rw [hview, if_pos ⟨rfl, rfl⟩],
      hf.change (hf.filed.insert _ _ _) (fun i hi => ?_) kernels
        (hd'.perm ((ThreadQueues.holds_insert h list).symm.append_right _)),
      update_grows (Nat.le_of_lt (Nat.lt_of_lt_of_le hnew.1 hnew.2)), fun i t hc _ => ?_, nofun,
      fun i t hc => ?_⟩
    · rw [ThreadQueues.onDevice_insert, if_neg (Ne.symm hi)]
    · rw [hview, if_neg (by simpa [gets] using hc)]
    · obtain ⟨rfl, rfl⟩ : device = i ∧ thread = t := by simpa [gets] using hc
      exact ⟨list, by rw [hview, if_pos ⟨rfl, rfl⟩], .inr ⟨h, hnew.1⟩⟩

/-- The queue of a thread is destroyed, if it has one. -/
theorem cleanup_moves (device thread : Nat) :
    (f.cleanup device thread).1 = .ok (f.queues.contains device thread) ∧
      (f.cleanup device thread).2.Matched info ∧
      f.Moves (.cleanup device thread) (f.cleanup device thread).2 := by
  cases h : f.queues.get? device thread with
  | none =>
    have hcleanup : f.cleanup device thread = (.ok false, f) := by
      rw [cleanup, ThreadQueues.cleanup, h]
      exact (act_ok rfl).trans (by rw [update_eq_self])
    rw [hcleanup, ThreadQueues.contains, h]
    refine ⟨rfl, hf, fun _ => Nat.le_refl _, fun _ _ _ _ => rfl, fun i t hc => ?_, nofun⟩
    obtain ⟨rfl, rfl⟩ : device = i ∧ thread = t := by simpa [cleans] using hc
    exact h
  | some list =>
    obtain ⟨kernels, hd⟩ := hf.out device
    obtain ⟨d', hrun, hd'⟩ := Operate.release_takes
      (hd.perm ((holds_erase hf.filed.devices h).append_right _))
    have hcleanup : f.cleanup device thread = (.ok true,
        ⟨f.queues.erase device thread, update f.devices device d'⟩) := by
      rw [cleanup, ThreadQueues.cleanup, h]
      exact act_ok (f := ⟨_, f.devices⟩) (bind_of_ok hrun)
    have hview := ThreadQueues.get?_erase hf.filed.toKeyed device thread
    have hgrows : HandlesGrow (f.devices device) d' := after_of_ok hrun ▸ destroyQueue_grows list _
    rw [hcleanup, ThreadQueues.contains, h]
    refine ⟨rfl, hf.change (hf.filed.erase _ _) (fun i hi => ?_) kernels hd', update_grows hgrows,
      fun i t _ hc => ?_, fun i t hc => ?_, nofun⟩
    · rw [ThreadQueues.onDevice_erase hf.filed.devices, if_neg (Ne.symm hi)]
    · rw [hview, if_neg (by simpa [cleans] using hc)]
    · rw [hview, if_pos (by simpa [cleans] using hc)]

/-- All queues on a device are destroyed. -/
theorem cleanupDevice_moves (device : Nat) :
    (f.cleanupDevice device).1 = .ok () ∧ (f.cleanupDevice device).2.Matched info ∧
      f.Moves (.cleanupDevice device) (f.cleanupDevice device).2 := by
  obtain ⟨kernels, hd⟩ := hf.out device
  obtain ⟨d', hrun, hd'⟩ := Operate.releaseAll_takes hd
  rw [← Control.cleanupDevice_eq] at hrun
  have hcleanup : f.cleanupDevice device = (.ok (),
      ⟨f.queues.eraseDevice device, update f.devices device d'⟩) :=
    act_ok (f := ⟨_, f.devices⟩) hrun
  have hgrows : HandlesGrow (f.devices device) d' :=
    after_of_ok hrun ▸ Along.forM (fun list _ => destroyQueue_grows list) _
  have honDevice := ThreadQueues.onDevice_eraseDevice hf.filed.devices device
  rw [hcleanup]
  refine ⟨rfl, hf.change (hf.filed.eraseDevice _) (fun i hi => ?_) kernels ?_, update_grows hgrows,
    fun i t _ hc => ?_, fun i t hc => ?_, nofun⟩
  · rw [honDevice, if_neg (Ne.symm hi)]
  · rw [holds, honDevice, if_pos rfl]
    exact hd'
  · rw [ThreadQueues.get?, honDevice, if_neg (by simpa [cleans] using hc)]
    rfl
  · rw [ThreadQueues.get?, honDevice, if_pos (by simpa [cleans] using hc)]
    rfl

/-- A kernel takes a handle, and all queues stay. -/
theorem install_moves (device : Nat) (binary : List UInt8) (entry : String) :
    (f.act device (Operate.install binary entry)).2.Matched info ∧
      f.Moves (.install device binary entry) (f.act device (Operate.install binary entry)).2 := by
  have hqueues : (f.act device (Operate.install binary entry)).2.queues = f.queues := rfl
  refine ⟨?_, update_grows (install_grows binary entry _), fun i t _ _ => by rw [hqueues], nofun,
    nofun⟩
  obtain ⟨kernels, hd⟩ := hf.out device
  rcases Operate.install_gives binary entry hd with ⟨e, -, herr⟩ | ⟨handle, d', hok, hd'⟩
  · rw [act, after_of_error herr, update_eq_self]
    exact hf
  · rw [act_ok hok]
    exact hf.change hf.filed (fun _ _ => rfl) (handle :: kernels) (hd'.perm perm_middle.symm)

/-- Every call keeps the command lists and the queues matched. -/
theorem step_moves (c : QueueCall) : (f.step c).Matched info ∧ f.Moves c (f.step c) := by
  cases c with
  | get device thread =>
    obtain ⟨_, -, -, h⟩ := get_moves hf device thread
    exact h
  | cleanup device thread => exact (cleanup_moves hf device thread).2
  | cleanupDevice device => exact (cleanupDevice_moves hf device).2
  | install device binary entry => exact install_moves hf device binary entry

end

/-! ## Any number of calls -/

theorem matched_run (hf : f.Matched info) (calls : List QueueCall) :
    (calls.foldl step f).Matched info := by
  induction calls generalizing f with
  | nil => exact hf
  | cons c calls ih => exact ih (step_moves hf c).1

theorem reached_matched (info : Nat → Info) (calls : List QueueCall) :
    (reached info calls).Matched info := by
  refine matched_run ⟨⟨keyed_empty, fun _ _ h => ?_⟩, fun i => ⟨[], ?_⟩⟩ calls
  · cases h
  · exact Simulator.givesOut_new (info i) []

theorem reached_append (info : Nat → Info) (calls more : List QueueCall) :
    reached info (calls ++ more) = more.foldl step (reached info calls) :=
  foldl_append

namespace Matched

/-- No two threads have the same list. -/
theorem apart (hf : f.Matched info) {t t' : Nat} (h : f.queues.get? device t = some list)
    (h' : f.queues.get? device t' = some list) : t = t' := by
  obtain ⟨kernels, hd⟩ := hf.out device
  have hnodup : (f.queues.onDevice device).values.Nodup := (nodup_append.1 hd.nodup).1.of_map _
  have hsame := inj_on_of_nodup_map hnodup (Table.mem_entries_of_get? h)
    (Table.mem_entries_of_get? h') rfl
  exact congrArg Prod.fst hsame

theorem mem_lists_iff (hf : f.Matched info) :
    list ∈ (f.devices device).lists.keys ↔ ∃ t, f.queues.get? device t = some list := by
  obtain ⟨kernels, hd⟩ := hf.out device
  rw [← Operate.list_mem_iff, Operate.mem_resources_iff hd, mem_append, holds]
  simp [Table.mem_values_iff (hf.filed.threads device), ThreadQueues.get?]

theorem lists_keyed (hf : f.Matched info) (device : Nat) : (f.devices device).lists.Keyed := by
  obtain ⟨kernels, hd⟩ := hf.out device
  have hnodup := hd.resources.nodup_iff.2 hd.nodup
  exact ((nodup_append.1 (nodup_append.1 hnodup).2.1).2.1).of_map _

/-- A list that a thread has was given out. -/
theorem le_last (hf : f.Matched info) (h : f.queues.get? device thread = some list) :
    list ≤ (f.devices device).lastHandle := by
  obtain ⟨kernels, hd⟩ := hf.out device
  exact hd.lists list ((Operate.mem_resources_iff hd).1
    (Operate.list_mem_iff.2 (hf.mem_lists_iff.2 ⟨thread, h⟩)))

end Matched

namespace Moves

variable {c : QueueCall}

/-- A thread keeps its queue unless it is cleaned up. -/
theorem kept (h : f.Moves c f') (hc : c.cleans device thread = false)
    (hlist : f.queues.get? device thread = some list) :
    f'.queues.get? device thread = some list := by
  cases hg : c.gets device thread with
  | false => rw [h.stays _ _ hg hc, hlist]
  | true =>
    obtain ⟨list', hlist', hold | ⟨hnone, -⟩⟩ := h.given _ _ hg
    · rw [hlist', ← hold, hlist]
    · cases hlist.symm.trans hnone

/-- A queue that a thread has was there before, or is new. -/
theorem old_or_new (h : f.Moves c f') (hlist : f'.queues.get? device thread = some list) :
    f.queues.get? device thread = some list ∨ (f.devices device).lastHandle < list := by
  cases hc : c.cleans device thread with
  | true => cases (h.cleaned _ _ hc).symm.trans hlist
  | false =>
    cases hg : c.gets device thread with
    | false => exact .inl ((h.stays _ _ hg hc).symm.trans hlist)
    | true =>
      obtain ⟨list', hlist', hold⟩ := h.given _ _ hg
      cases hlist'.symm.trans hlist
      exact hold.imp_right And.right

theorem contains (h : f.Moves c f') (device thread : Nat) : f'.queues.contains device thread =
    ((f.queues.contains device thread || c.gets device thread) && !c.cleans device thread) := by
  unfold ThreadQueues.contains
  cases hc : c.cleans device thread with
  | true =>
    rw [h.cleaned _ _ hc]
    simp
  | false =>
    cases hg : c.gets device thread with
    | false =>
      rw [h.stays _ _ hg hc]
      simp
    | true =>
      obtain ⟨list, hlist, -⟩ := h.given _ _ hg
      rw [hlist]
      simp

end Moves

theorem contains_run (hf : f.Matched info) (calls : List QueueCall) (device thread : Nat) :
    (calls.foldl step f).queues.contains device thread =
      calls.foldl (fun has c => (has || c.gets device thread) && !c.cleans device thread)
        (f.queues.contains device thread) := by
  induction calls generalizing f with
  | nil => rfl
  | cons c calls ih =>
    obtain ⟨hstep, hmoves⟩ := step_moves hf c
    rw [foldl_cons, ih hstep, hmoves.contains]
    rfl

/-! ## The life of a handle -/

/-- A handle that was given out, and that no thread has any more. -/
structure Spent (f : Fleet) (device list : Nat) : Prop where
  out : list ≤ (f.devices device).lastHandle
  free : ∀ thread, f.queues.get? device thread ≠ some list

theorem held_run (hf : f.Matched info) (hlist : f.queues.get? device thread = some list)
    (hcalls : ∀ c ∈ calls, c.cleans device thread = false) :
    (calls.foldl step f).queues.get? device thread = some list := by
  induction calls generalizing f with
  | nil => exact hlist
  | cons c calls ih =>
    obtain ⟨hc, hcalls⟩ := forall_mem_cons.1 hcalls
    obtain ⟨hstep, hmoves⟩ := step_moves hf c
    exact ih hstep (hmoves.kept hc hlist) hcalls

/-- A handle is spent once its queue is cleaned up. -/
theorem spent_step {c : QueueCall} (hf : f.Matched info) (hmoves : f.Moves c f')
    (hlist : f.queues.get? device thread = some list) (hc : c.cleans device thread = true) :
    f'.Spent device list where
  out := Nat.le_trans (hf.le_last hlist) (hmoves.handles device)
  free t ht := by
    rcases hmoves.old_or_new ht with hold | hnew
    · cases hf.apart hlist hold
      cases (hmoves.cleaned _ _ hc).symm.trans ht
    · exact absurd (hf.le_last hlist) (Nat.not_le.2 hnew)

theorem Spent.step {c : QueueCall} (h : f.Spent device list) (hmoves : f.Moves c f') :
    f'.Spent device list where
  out := Nat.le_trans h.out (hmoves.handles device)
  free t ht := by
    rcases hmoves.old_or_new ht with hold | hnew
    · exact h.free t hold
    · exact absurd h.out (Nat.not_le.2 hnew)

theorem Spent.run (hf : f.Matched info) (h : f.Spent device list) (calls : List QueueCall) :
    (calls.foldl Fleet.step f).Spent device list := by
  induction calls generalizing f with
  | nil => exact h
  | cons c calls ih =>
    obtain ⟨hstep, hmoves⟩ := step_moves hf c
    exact ih hstep (h.step hmoves)

theorem spent_run (hf : f.Matched info) (hlist : f.queues.get? device thread = some list)
    (hcalls : ∃ c ∈ calls, c.cleans device thread = true) :
    (calls.foldl step f).Spent device list := by
  induction calls generalizing f with
  | nil => simp at hcalls
  | cons c calls ih =>
    obtain ⟨hstep, hmoves⟩ := step_moves hf c
    cases hc : c.cleans device thread with
    | true => exact (spent_step hf hmoves hlist hc).run hstep calls
    | false =>
      refine ih hstep (hmoves.kept hc hlist) ?_
      simpa [hc] using hcalls

/-- What a thread gets is what another got before exactly if both are the same thread
and its queue was not cleaned up in between. -/
theorem get_again (hf : f.Matched info) (hlist : f.queues.get? device thread = some list)
    (between : List QueueCall) (thread' : Nat) :
    ∃ list', ((between.foldl step f).get device thread').1 = .ok list' ∧
      (list' = list ↔ thread' = thread ∧ ∀ c ∈ between, c.cleans device thread = false) := by
  have hf' := matched_run hf between
  obtain ⟨list', hanswer, hlist', hmatched, hmoves⟩ := get_moves hf' device thread'
  refine ⟨list', hanswer, ?_⟩
  by_cases hkept : ∀ c ∈ between, c.cleans device thread = false
  · have hheld := hmoves.kept rfl (held_run hf hlist hkept)
    rw [and_iff_left hkept]
    constructor
    · rintro rfl
      exact hmatched.apart hlist' hheld
    · rintro rfl
      exact Option.some.inj (hlist'.symm.trans hheld)
  · have hspent : (between.foldl step f).Spent device list :=
      spent_run hf hlist (by simpa using hkept)
    refine iff_of_false ?_ fun h => hkept h.2
    rintro rfl
    exact (hspent.step hmoves).free thread' hlist'

/-- **queues_isolated**: whatever has been asked for, each thread has its own queue on a device
until it is cleaned up, no handle comes up again, and a device has no other command lists. -/
theorem queues_isolated (info : Nat → Info) (calls : List QueueCall) :
    (∀ device thread thread' between, ∃ list list',
      ((reached info calls).get device thread).1 = .ok list ∧
      ((reached info (calls ++ .get device thread :: between)).get device thread').1 = .ok list' ∧
      (list' = list ↔ thread' = thread ∧ ∀ c ∈ between, c.cleans device thread = false)) ∧
    (∀ device thread thread' list, (reached info calls).queues.get? device thread = some list →
      (reached info calls).queues.get? device thread' = some list → thread = thread') ∧
    (∀ device thread, (reached info calls).queues.contains device thread =
      QueueCall.leaves device thread calls) ∧
    (∀ device thread, ((reached info calls).cleanup device thread).1 =
        .ok ((reached info calls).queues.contains device thread) ∧
      ∀ i t, ((reached info calls).cleanup device thread).2.queues.get? i t =
        if device = i ∧ thread = t then none else (reached info calls).queues.get? i t) ∧
    (∀ device, ((reached info calls).cleanupDevice device).1 = .ok () ∧
      ∀ i t, ((reached info calls).cleanupDevice device).2.queues.get? i t =
        if device = i then none else (reached info calls).queues.get? i t) ∧
    (∀ device, (reached info calls).queues.hasDevice device = true ↔
      ∃ thread, (reached info calls).queues.contains device thread = true) ∧
    (∀ device, ((reached info calls).devices device).lists.keys.Nodup ∧
      ∀ list, list ∈ ((reached info calls).devices device).lists.keys ↔
        ∃ thread, (reached info calls).queues.get? device thread = some list) := by
  have hf := reached_matched info calls
  refine ⟨fun device thread thread' between => ?_, fun _ _ _ _ => hf.apart,
    fun device thread => contains_run (reached_matched info []) calls device thread,
    fun device thread => ?_, fun device => ?_, hf.filed.hasDevice_iff,
    fun device => ⟨hf.lists_keyed device, fun _ => hf.mem_lists_iff⟩⟩
  · obtain ⟨list, hanswer, hlist, hmatched, -⟩ := get_moves hf device thread
    obtain ⟨list', hagain⟩ := get_again hmatched hlist between thread'
    rw [reached_append]
    exact ⟨list, list', hanswer, hagain⟩
  · obtain ⟨hanswer, -, hmoves⟩ := cleanup_moves hf device thread
    refine ⟨hanswer, fun i t => ?_⟩
    split
    · next heq => exact hmoves.cleaned i t (by simpa [cleans] using heq)
    · next hne => exact hmoves.stays i t rfl (by simpa [cleans] using hne)
  · obtain ⟨hanswer, -, hmoves⟩ := cleanupDevice_moves hf device
    refine ⟨hanswer, fun i t => ?_⟩
    split
    · next heq => exact hmoves.cleaned i t (by simpa [cleans] using heq)
    · next hne => exact hmoves.stays i t rfl (by simpa [cleans] using hne)

end Fleet

end KernelForge.Host
