import KernelForge.Proofs.Queues.Frames

/-!
# Plans come into use and are reset

A plan that holds anything is in use, and no plan in use counts as reset (`Tracked`). Operations
take a plan into use before they give it anything (`Registers`); only a reset takes it out of use. A
reset forgets all that its plan held and leaves what every other plan holds, has recorded and has in
device memory.
-/

namespace KernelForge.Host

open List
open Device (Info Simulator Operate)

variable {info : Nat → Info} {c c' : Context} {plan device thread : Nat} {op : Operation}

/-! ## Plans in use -/

/-- Plans that hold something are in use, and plans in use were not reset. -/
structure Context.Tracked (c : Context) : Prop where
  entries : ∀ p, (c.plans.get? p).isSome = true → p ∈ c.inUse
  apart : ∀ p ∈ c.inUse, p ∉ c.resetPlans

/-- Every plan that newly holds something is in use, and every plan that newly is in
use does not count as reset. -/
structure Registers (c c' : Context) : Prop where
  kept : ∀ p ∈ c.inUse, p ∈ c'.inUse
  entries : ∀ p, (c'.plans.get? p).isSome = true → (c.plans.get? p).isSome = true ∨ p ∈ c'.inUse
  resets : ∀ p ∈ c'.resetPlans, p ∈ c.resetPlans ∧ (p ∈ c'.inUse → p ∈ c.inUse)

instance : Chain Registers where
  refl _ := ⟨fun _ h => h, fun _ h => .inl h, fun _ h => ⟨h, id⟩⟩
  trans {c c' c''} a b := by
    refine ⟨fun p h => b.kept p (a.kept p h), fun p h => ?_, fun p h => ?_⟩
    · rcases b.entries p h with h | h
      · exact (a.entries p h).imp_right (b.kept p)
      · exact .inr h
    · obtain ⟨hreset, hused⟩ := b.resets p h
      exact ⟨(a.resets p hreset).1, fun h => (a.resets p hreset).2 (hused h)⟩

theorem Registers.tracked (h : Registers c c') (hc : c.Tracked) : c'.Tracked where
  entries p hp := by
    rcases h.entries p hp with hp | hp
    · exact h.kept p (hc.entries p hp)
    · exact hp
  apart p hp hreset := by
    obtain ⟨hreset, hused⟩ := h.resets p hreset
    exact hc.apart p (hused hp) hreset

/-- Only plans count. -/
theorem Registers.same (hplans : c'.plans = c.plans) (hused : c'.inUse = c.inUse)
    (hresets : c'.resetPlans = c.resetPlans) : Registers c c' where
  kept _ h := hused ▸ h
  entries _ h := .inl (hplans ▸ h)
  resets _ h := ⟨hresets ▸ h, fun h => hused ▸ h⟩

/-- A plan that is in use, or holds something already, may hold something else. -/
theorem Registers.setPlan (h : plan ∈ c.inUse ∨ (c.plans.get? plan).isSome = true) (p : Plan) :
    Registers c (c.setPlan plan p) where
  kept p h := h
  entries q hq := by
    have hq' : ((c.plans.insert plan p).get? q).isSome = true := hq
    rw [Table.get?_insert] at hq'
    by_cases heq : plan = q
    · subst heq
      exact h.symm
    · rw [if_neg heq] at hq'
      exact .inl hq'
  resets p h := ⟨h, id⟩

def Serves (plan : Nat) (c c' : Context) : Prop := plan ∈ c.inUse → Registers c c'

instance (plan : Nat) : Chain (Serves plan) where
  refl c _ := Chain.refl c
  trans a b h := Chain.trans (a h) (b ((a h).kept plan h))

theorem serves {α : Type} {x : Control α} (h : Along Registers x) (plan : Nat) :
    Along (Serves plan) x :=
  fun c _ => h c

namespace Control

variable {α β : Type} {x : Control α}

/-- A step that, when it succeeds, has taken a plan into use. -/
def Opens (plan : Nat) (x : Control α) : Prop :=
  ∀ c, Registers c (after x c) ∧ ∀ a c', x c = .ok a c' → plan ∈ c'.inUse

/-- What follows a step that takes a plan into use may serve the plan. -/
theorem Opens.bind {f : α → Control β} (hx : Opens plan x)
    (hf : ∀ a, Along (Serves plan) (f a)) : Opens plan (x >>= f) := by
  intro c
  obtain ⟨hregisters, hused⟩ := hx c
  cases h : x c with
  | error e c₁ =>
    rw [after_of_error h] at hregisters
    refine ⟨(after_bind_of_error h : after (x >>= f) c = c₁) ▸ hregisters, fun b c' hrun => ?_⟩
    obtain ⟨a, c₂, hok, -⟩ := bind_ok.1 hrun
    cases h.symm.trans hok
  | ok a c₁ =>
    rw [after_of_ok h] at hregisters
    have hin := hused a c₁ h
    have hrest := hf a c₁ hin
    refine ⟨(after_bind_of_ok h : after (x >>= f) c = _) ▸ Chain.trans hregisters hrest,
      fun b c' hrun => ?_⟩
    rw [bind_of_ok h] at hrun
    rw [after_of_ok hrun] at hrest
    exact hrest.kept plan hin

theorem Opens.along (hx : Opens plan x) : Along Registers x := fun c => (hx c).1

/-! ## Steps -/

theorem onDevice_devices (device : Nat) (action : Operate α) (c : Context) :
    ∃ devices, after (onDevice device action) c = { c with devices } := by
  cases hd : c.devices[device]? with
  | none => exact ⟨c.devices, after_of_error (onDevice_of_none hd action)⟩
  | some => exact ⟨_, after_onDevice hd action⟩

theorem onDevice_registers (action : Operate α) : Along Registers (onDevice device action) := by
  intro c
  obtain ⟨devices, hafter⟩ := onDevice_devices device action c
  rw [hafter]
  exact .same rfl rfl rfl

theorem onDevice_serves (action : Operate α) : Along (Serves plan) (onDevice device action) :=
  serves (onDevice_registers action) plan

theorem track_opens (plan : Nat) : Opens plan (track plan) := by
  intro c
  have hmem : plan ∈ c.inUse.insert plan := mem_insert_self
  refine ⟨⟨fun p h => mem_insert_of_mem h, fun p hp => ?_, fun p hp => ?_⟩, fun a c' hrun => ?_⟩
  · have hp' : ((c.plans.insert plan _).get? p).isSome = true := hp
    rw [Table.get?_insert] at hp'
    by_cases heq : plan = p
    · exact .inr (heq ▸ hmem)
    · rw [if_neg heq] at hp'
      exact .inl hp'
  · obtain ⟨hp, hne⟩ := mem_filter.1 hp
    refine ⟨hp, fun hin => ?_⟩
    rcases mem_insert_iff.1 hin with rfl | hin
    · simp at hne
    · exact hin
  · cases modify_ok.1 hrun
    exact hmem

/-- A step that changes no plan, ahead of one that takes a plan into use. -/
theorem Opens.after {f : α → Control β} (hx : Along Registers x)
    (hf : ∀ a, Opens plan (f a)) : Opens plan (x >>= f) := by
  intro c
  refine ⟨hx.bind (fun a => (hf a).along) c, fun b c' hrun => ?_⟩
  obtain ⟨a, c₁, -, hrun⟩ := bind_ok.1 hrun
  exact (hf a c₁).2 b c' hrun

theorem claim_opens (plan device : Nat) : Opens plan (claim plan device) :=
  .after (onDevice_registers _) fun _ => (track_opens plan).bind fun _ =>
    .getThen fun _ => .pure _

theorem changeShare_serves (f : Share → Share) : Along (Serves plan) (changeShare plan device f) :=
  fun _ h => .setPlan (.inl h) _

theorem queue_opens (plan device thread : Nat) : Opens plan (queue plan device thread) := by
  refine (claim_opens plan device).bind fun _ => .getThen fun c => ?_
  refine (onDevice_serves _).bind fun r => ?_
  exact .bind (fun _ h => .setPlan (.inl h) _) fun _ => .pure _

theorem release_serves (index : Nat) : Along (Serves plan) (release plan device index) :=
  .getThen fun _ => (Along.ofExcept _).bind fun _ => changeShare_serves _

theorem bracketed_opens (d : Descriptor) (work : Nat → Operate Unit) :
    Opens plan (bracketed plan device thread d work) := by
  refine (queue_opens plan device thread).bind fun list => (onDevice_serves _).bind fun start =>
    (onDevice_serves _).bind fun stop => .bind ?_ fun index => ?_
  · exact .getThen fun _ => (Along.ofExcept _).bind fun _ =>
      (changeShare_serves _).bind fun _ => .pure _
  · refine .bind (.tryCatch (onDevice_serves _) fun e => ?_) fun _ => .pure _
    exact (release_serves index).bind fun _ => .throw e

theorem installFrom_serves (id entry : String) (binary : List UInt8) (source : Option Source) :
    Along (Serves plan) (installFrom plan device id entry binary source) :=
  .getThen fun _ => (onDevice_serves _).bind fun _ => (changeShare_serves _).bind fun _ =>
    .pure _

theorem stage_registers (id entry : String) (binary : List UInt8) :
    Along Registers (stage id entry binary) := by
  intro c
  rcases stage_cases id entry binary c with ⟨hrun, -⟩ | ⟨source, staged, hrun⟩
  · rw [after_of_error hrun]
    exact Chain.refl c
  · rw [after_of_ok hrun]
    exact .same rfl rfl rfl

theorem install_opens (id entry : String) (binary : List UInt8) :
    Opens plan (install plan device id entry binary) := by
  have hrest : Along (Serves plan) (do
      let source ← stage id entry binary
      installFrom plan device id entry binary source) :=
    (serves (stage_registers id entry binary) plan).bind fun source =>
      installFrom_serves id entry binary source
  refine (claim_opens plan device).bind fun _ => ?_
  split
  · exact (Along.throw _).bind fun _ => hrest
  · exact hrest

theorem frameFor_serves (bytes : Nat) : Along (Serves plan)
    (frameFor plan device thread bytes) := by
  refine .getThen fun c => ?_
  split
  · split
    · exact .pure _
    · exact (onDevice_serves _).bind fun _ => (changeShare_serves _).bind fun _ => .pure _
  · exact (onDevice_serves _).bind fun _ => (changeShare_serves _).bind fun _ => .pure _

theorem launch_opens (key : String) (range : Device.Range) (args : List Argument) :
    Opens plan (launch plan device thread key range args) := by
  refine (claim_opens plan device).bind fun share => ?_
  split
  · exact .throw _
  · refine (onDevice_serves _).bind fun about => ?_
    split
    · exact .throw _
    · exact (frameFor_serves _).bind fun _ => serves (bracketed_opens _ _).along plan

theorem flush_opens (plan device thread : Nat) : Opens plan (flush plan device thread) := by
  refine (queue_opens plan device thread).bind fun list => (onDevice_serves _).bind fun _ =>
    .getThen fun c => ?_
  cases (c.share plan device).frames.get? thread with
  | none => exact .pure _
  | some => exact (changeShare_serves _).bind fun _ => onDevice_serves _

/-- Only a plan that holds something has events and buffers. -/
theorem setShare_registers (h : c.share plan device ≠ c.newShare) (s : Share) :
    Registers c (c.setShare plan device s) := by
  refine .setPlan (.inr ?_) _
  cases hget : c.plans.get? plan with
  | some => rfl
  | none =>
    refine absurd ?_ h
    unfold Context.share
    rw [hget]
    rfl

/-- Another event window in place of one that has events. -/
theorem setEvents_registers {r : Except Error (EventWindow Brackets)}
    (hr : ∀ w, r = .ok w → c.share plan device ≠ c.newShare) :
    Registers c (after (do
      let events ← ofExcept r
      changeShare plan device ({ · with events }) : Control Unit) c) := by
  cases r with
  | error => exact Chain.refl c
  | ok w => exact setShare_registers (hr w rfl) _

/-- A window without events keeps and gives free none. -/
theorem share_ne_newShare {index : Nat} {e : Descriptor × Brackets}
    (h : (c.share plan device).events.event index = .ok e) : c.share plan device ≠ c.newShare := by
  intro heq
  rw [heq] at h
  exact c.newShare_blank.events index e h

theorem retain_registers (index : Nat) : Along Registers (retain plan device index) := by
  intro c
  refine setEvents_registers (r := (c.share plan device).events.retain index) fun w hw => ?_
  obtain ⟨⟨e, hevent⟩, -⟩ := EventWindow.marked_ok (.inl hw)
  exact share_ne_newShare hevent

theorem release_registers (index : Nat) : Along Registers (release plan device index) := by
  intro c
  refine setEvents_registers (r := (c.share plan device).events.release index) fun w hw => ?_
  obtain ⟨⟨e, hevent⟩, -⟩ := EventWindow.marked_ok (.inr hw)
  exact share_ne_newShare hevent

theorem free_registers (buffer : Buffer) : Along Registers (free plan buffer) := by
  refine .get fun c => ?_
  dsimp only
  split
  · next hany =>
    have hshare : c.share plan buffer.device ≠ c.newShare := by
      intro heq
      rw [heq] at hany
      cases hany
    exact Chain.trans (setShare_registers hshare _) (onDevice_registers _ _)
  · exact Along.throw _ c

theorem cleanupQueue_registers : Along Registers (cleanupQueue plan device thread) := by
  refine (onDevice_registers _).bind fun _ => .get fun c => ?_
  split
  · next hplan => exact Chain.trans (.setPlan (.inr hplan) _) (onDevice_registers _ _)
  · exact Along.pure _ c

/-! ## Operations -/

theorem installFile_opens (id entry file : String) :
    Opens plan (installFile plan device id entry file) := by
  refine (claim_opens plan device).bind fun _ => .getThen fun c => ?_
  split
  · exact .throw _
  · split
    · exact (Along.throw _).bind fun _ => installFrom_serves _ _ _ _
    · exact installFrom_serves _ _ _ _

theorem installModule_opens (id : String) (m : Codegen.Binary) :
    Opens plan (installModule plan device id m) :=
  (claim_opens plan device).bind fun _ => .mapM fun entry _ =>
    serves (install_opens id entry m.bytes).along plan

theorem allocate_opens (size : Nat) : Opens plan (allocate plan device size) :=
  .after (onDevice_registers _) fun _ => (track_opens plan).bind fun _ =>
    (changeShare_serves _).bind fun _ => .pure _

theorem transferStart_registers (buffer : Buffer) (offset length : Nat) :
    Along Registers (transferStart buffer offset length) := by
  unfold transferStart
  split
  · exact .throw _
  · exact .ofExcept _

theorem enqueueWrite_opens (buffer : Buffer) (offset : Nat) (data : List UInt8) :
    Opens plan (enqueueWrite plan thread buffer offset data) :=
  .after (transferStart_registers _ _ _) fun _ => bracketed_opens _ _

theorem enqueueRead_opens (buffer : Buffer) (offset length : Nat) :
    Opens plan (enqueueRead plan thread buffer offset length) := by
  refine .after (transferStart_registers _ _ _) fun _ => (claim_opens plan _).bind fun _ =>
    (onDevice_serves _).bind fun sink =>
    (serves (bracketed_opens _ _).along plan).bind fun index => ?_
  exact .getThen fun _ => (Along.ofExcept _).bind fun _ => .pure _

theorem takeBytes_registers (r : PendingRead) : Along Registers (takeBytes r) := by
  refine .getThen fun c => ?_
  split
  · exact onDevice_registers _
  · exact .throw _

end Control

/-- Every step but an install and a reset takes a plan into use before it gives the plan
anything. -/
theorem Step.registers {x : Step} (hreset : ∀ plan, x ≠ .reset plan)
    (hinstall : ∀ plan device id entry binary source,
      x ≠ .installFrom plan device id entry binary source) :
      Along Registers x.run := by
  cases x with
  | claim => exact (Control.claim_opens _ _).along.discard
  | queue => exact (Control.queue_opens _ _ _).along.discard
  | stage => exact (Control.stage_registers _ _ _).discard
  | retain => exact Control.retain_registers _
  | release => exact Control.release_registers _
  | barrier => exact (Control.bracketed_opens _ _).along.discard
  | installFrom => exact absurd rfl (hinstall _ _ _ _ _ _)
  | allocate => exact (Control.allocate_opens _).along.discard
  | free => exact Control.free_registers _
  | enqueueWrite => exact (Control.enqueueWrite_opens _ _ _).along.discard
  | enqueueRead => exact (Control.enqueueRead_opens _ _ _).along.discard
  | takeBytes => exact (Control.takeBytes_registers _).discard
  | launch => exact (Control.launch_opens _ _ _).along.discard
  | flush => exact (Control.flush_opens _ _ _).along
  | cleanupQueue => exact Control.cleanupQueue_registers.discard
  | reset => exact absurd rfl (hreset _)

/-- Every operation but a reset takes a plan into use before it gives the plan
anything. -/
theorem Operation.perform_registers (h : ∀ plan, op ≠ .reset plan) :
    Along Registers op.perform := by
  cases op with
  | install => exact (Control.install_opens _ _ _).along.discard
  | installFile => exact (Control.installFile_opens _ _ _).along.discard
  | installModule => exact (Control.installModule_opens _ _).along.discard
  | reset plan => exact absurd rfl (h plan)
  | _ =>
    refine fun c => perform_invariant (P := Registers c) (fun x hx c' hc' => ?_) (Chain.refl c)
    refine Chain.trans hc' (Step.registers (fun _ heq => ?_) (fun _ _ _ _ _ _ heq => ?_) c')
    · simp [heq, Uses] at hx
    · simp [heq, Uses] at hx

/-! ## Resets -/

def SameUse (c c' : Context) : Prop := c'.inUse = c.inUse ∧ c'.resetPlans = c.resetPlans

instance : Chain SameUse where
  refl _ := ⟨rfl, rfl⟩
  trans a b := ⟨b.1.trans a.1, b.2.trans a.2⟩

theorem onDevice_sameUse {α : Type} (action : Operate α) :
    Along SameUse (Control.onDevice device action) := by
  intro c
  obtain ⟨devices, hafter⟩ := Control.onDevice_devices device action c
  rw [hafter]
  exact ⟨rfl, rfl⟩

theorem changeShare_sameUse (f : Share → Share) :
    Along SameUse (Control.changeShare plan device f) :=
  fun _ => ⟨rfl, rfl⟩

theorem dispose_sameUse : Along SameUse (Control.dispose plan device) := by
  refine .getThen fun c => (changeShare_sameUse _).bind fun _ => (onDevice_sameUse _).bind fun _ =>
    .bind (.forM fun entry _ => ?_) fun _ => (changeShare_sameUse _).bind fun _ =>
      onDevice_sameUse _
  exact (changeShare_sameUse _).bind fun _ => onDevice_sameUse _

theorem reset_use (h : Control.reset plan c = .ok () c') :
    c'.inUse = c.inUse.filter (· != plan) ∧
      c'.resetPlans = plan :: c.resetPlans.filter (· != plan) := by
  obtain ⟨_, c₁, hget, h⟩ := bind_ok.1 h
  obtain ⟨rfl, rfl⟩ := get_ok.1 hget
  obtain ⟨_, c₁, hdispose, h⟩ := bind_ok.1 h
  obtain ⟨_, c₂, hget, h⟩ := bind_ok.1 h
  obtain ⟨rfl, rfl⟩ := get_ok.1 hget
  obtain ⟨_, c₂, hqueues, h⟩ := bind_ok.1 h
  obtain ⟨_, c₃, hcleanup, h⟩ := bind_ok.1 h
  have hsame₁ : SameUse c c₁ := by
    have hforM : Along SameUse ((List.range c.devices.size).forM (Control.dispose plan)) :=
      Along.forM fun _ _ => dispose_sameUse
    exact after_of_ok hdispose ▸ hforM c
  have hsame₂ : SameUse c₁ c₂ := modify_ok.1 hqueues ▸ ⟨rfl, rfl⟩
  have hsame₃ : SameUse c₂ c₃ := by
    have hforM : Along SameUse ((List.range c.devices.size).forM fun device =>
        Control.onDevice device ((c₁.queues plan).cleanupDevice device).1) :=
      Along.forM fun _ _ => onDevice_sameUse _
    exact after_of_ok hcleanup ▸ hforM c₂
  obtain ⟨hused, hresets⟩ := Chain.trans (Chain.trans hsame₁ hsame₂) hsame₃
  rw [← modify_ok.1 h, ← hused, ← hresets]
  exact ⟨rfl, rfl⟩

/-- What a reset of a plan leaves. The plan has nothing on any device and is out of use;
the other plans have what they had. -/
structure ResetOf (plan : Nat) (c c' : Context) : Prop where
  gone : c'.plans.get? plan = none
  unused : plan ∉ c'.planIds
  wasReset : c'.wasReset plan = true
  others : ∀ p, p ≠ plan → c'.plans.get? p = c.plans.get? p ∧
    (p ∈ c'.planIds ↔ p ∈ c.planIds) ∧ c'.wasReset p = c.wasReset p
  pending : ∀ p i t, p ≠ plan → c'.pending p i t = c.pending p i t
  bytes : ∀ i, (c'.scene.heap i).bytes = (c.scene.heap i).bytes
  /-- Buffers and frames of other plans stay allocated with their sizes. -/
  blocks : ∀ p i a, p ≠ plan → .block a ∈ (c.plan p).holds i → i < c.devices.size →
    ∃ n, (c.scene.heap i).blockSize? a = some n ∧ (c'.scene.heap i).blockSize? a = some n
  /-- Devices have out what the other plans hold and nothing else. -/
  resources : ∀ (i : Nat) (d : Simulator), c'.devices[i]? = some d → d.resources.Perm (c'.holds i)

theorem Balanced.plan_live (h : Balanced info c) {i a p : Nat} (hi : i < c.devices.size)
    (ha : .block a ∈ (c.plan p).holds i) : ∃ n, (c.scene.heap i).blockSize? a = some n := by
  obtain ⟨rest, hall, -⟩ := c.setPlan_holds p i
  exact Table.mem_keys_iff.1 (h.block_live hi (hall.mem_iff.2 (mem_append_left _ ha)))

theorem mem_planIds {p : Nat} : p ∈ c.planIds ↔ p ∈ c.inUse := mem_mergeSort

/-- A plan of a context in balance can be reset. -/
theorem reset_clears (h : Ordered info c) (plan : Nat) :
    ∃ c', Control.reset plan c = .ok () c' ∧ ResetOf plan c c' := by
  obtain ⟨c', hrun, hbalanced, hplans⟩ := Control.reset_balanced plan h.balanced
  obtain ⟨hused, hresets⟩ := reset_use hrun
  obtain ⟨-, hreset⟩ := Control.reset_run h.own plan
  rw [failure_of_ok hrun, after_of_ok hrun] at hreset
  obtain ⟨s, held, hshed, hscene⟩ : ∃ s held, Scene.Shed plan c.scene s ∧
      c'.scene = s.forget plan held := by
    generalize c'.scene = s' at hreset
    cases hreset with
    | done hshed => exact ⟨_, _, hshed, rfl⟩
  have hheap : ∀ i, (c.scene.heap i).Forgets (c'.scene.heap i) := by
    intro i
    rw [hscene]
    exact hshed.heap i
  have hother : ∀ p, p ≠ plan → c'.plans.get? p = c.plans.get? p := by
    intro p hp
    rw [hplans]
    exact Table.get?_erase_of_ne _ hp.symm
  refine ⟨c', hrun, ?_, ?_, ?_, fun p hp => ⟨hother p hp, ?_, ?_⟩, fun p i t hp => ?_,
    fun i => (hheap i).bytes, fun p i a hp ha hi => ?_,
    fun i d hd => (hbalanced.devices i d hd).resources⟩
  · rw [hplans]
    exact Table.get?_erase_self h.own.plans plan
  · rw [mem_planIds, hused]
    simp
  · unfold Context.wasReset
    rw [hresets]
    simp
  · rw [mem_planIds, mem_planIds, hused]
    simp [hp]
  · unfold Context.wasReset
    rw [hresets]
    simp [hp]
  · have hpending : c'.scene.pending p i t = c.scene.pending p i t := by
      rw [hscene, ← hshed.pending]
      exact if_neg hp.symm
    exact hpending
  · have hsame : c'.plan p = c.plan p := congrArg (·.getD {}) (hother p hp)
    have hsize : c'.devices.size = c.devices.size := by
      have hscenes : c'.scene.size = c.scene.size := by
        rw [hscene]
        exact hshed.size
      exact hscenes
    obtain ⟨n, hn⟩ := h.balanced.plan_live hi ha
    obtain ⟨n', hn'⟩ := hbalanced.plan_live (hsize.symm ▸ hi) (hsame.symm ▸ ha)
    have hsizes := (hheap i).sameSizes (h.balanced.laid i).keyed a n n' hn hn'
    exact ⟨n, hn, hsizes ▸ hn'⟩

theorem ResetOf.tracked (h : ResetOf plan c c') (hc : c.Tracked) : c'.Tracked where
  entries p hp := by
    by_cases heq : p = plan
    · rw [heq, h.gone] at hp
      cases hp
    · obtain ⟨hsame, hused, -⟩ := h.others p heq
      rw [hsame] at hp
      exact mem_planIds.1 (hused.2 (mem_planIds.2 (hc.entries p hp)))
  apart p hp hreset := by
    by_cases heq : p = plan
    · exact h.unused (mem_planIds.2 (heq ▸ hp))
    · obtain ⟨-, hused, hsame⟩ := h.others p heq
      refine hc.apart p (mem_planIds.1 (hused.1 (mem_planIds.2 hp))) ?_
      unfold Context.wasReset at hsame
      rw [contains_eq_mem, contains_eq_mem, decide_eq_decide] at hsame
      exact hsame.1 hreset

/-! ## Histories -/

namespace Context

/-- One operation keeps the order and the plans in use. -/
theorem perform_tracked (h : Ordered info c ∧ c.Tracked) :
    Ordered info (after op.perform c) ∧ (after op.perform c).Tracked := by
  obtain ⟨h, hc⟩ := h
  refine ⟨?_, ?_⟩
  · exact Operation.perform_invariant (P := Ordered info) (fun x _ c h => h.step x) h
  · by_cases hreset : ∃ plan, op = .reset plan
    · obtain ⟨plan, rfl⟩ := hreset
      obtain ⟨c', hrun, hclears⟩ := reset_clears h plan
      have hafter : after (Operation.reset plan).perform c = c' := after_of_ok hrun
      exact hafter ▸ hclears.tracked hc
    · have hregisters := Operation.perform_registers (fun plan heq => hreset ⟨plan, heq⟩) c
      exact hregisters.tracked hc

/-- **reset_complete**: after every history, plans that hold something are in use and plans in use
do not count as reset. Every plan can be reset; it then has nothing left on any device, and the
other plans have what they had. -/
theorem reset_complete (info : Nat → Info) (c : Context) (ops : List Operation)
    (hfresh : c.Fresh info) (hidle : c.inUse = []) :
    (c.history ops).Tracked ∧
    ∀ plan, ∃ c', Control.reset plan (c.history ops) = .ok () c' ∧
      ResetOf plan (c.history ops) c' ∧ c'.Tracked := by
  have htracked : c.Tracked := by
    refine ⟨fun p hp => ?_, fun p hp => ?_⟩
    · rw [hfresh.plans] at hp
      cases hp
    · rw [hidle] at hp
      cases hp
  obtain ⟨hordered, hkept⟩ := history_invariant (P := fun c => Ordered info c ∧ c.Tracked)
    (fun _ _ _ => perform_tracked) ⟨hfresh.ordered, htracked⟩
  refine ⟨hkept, fun plan => ?_⟩
  obtain ⟨c', hrun, hclears⟩ := reset_clears hordered plan
  exact ⟨c', hrun, hclears, hclears.tracked hkept⟩

/-- Two plans with a buffer and something recorded each. -/
def twoPlans : List Operation :=
  [.upload 0 0 3 8 [1, 2, 3, 4, 5, 6, 7, 8], .allocate 1 0 16, .barrier 1 0 5 .marker,
    .barrier 0 0 3 .marker]

/-- One of two plans is reset; what the other has recorded and its buffer stay. -/
theorem reset_complete_twoPlans :
    ∃ c', Control.reset 0 (({} : Context).history twoPlans) = .ok () c' ∧
      0 ∈ (({} : Context).history twoPlans).planIds ∧ 0 ∉ c'.planIds ∧ 1 ∈ c'.planIds ∧
      c'.pending 1 0 5 = (({} : Context).history twoPlans).pending 1 0 5 ∧
      (({} : Context).history twoPlans).pending 1 0 5 ≠ [] ∧
      (c'.scene.heap 0).blockSize? (Device.heapBase + 64) = some 16 := by
  obtain ⟨-, hreset⟩ := reset_complete (fun _ => {}) {} twoPlans fresh_default rfl
  obtain ⟨c', hrun, hclears, -⟩ := hreset 0
  have hused : ∀ p ∈ [0, 1], p ∈ (({} : Context).history twoPlans).planIds := by
    simp only [mem_planIds]
    decide +kernel
  obtain ⟨n, hn, hn'⟩ := hclears.blocks 1 0 (Device.heapBase + 64) (by decide)
    (by decide +kernel) (by decide +kernel)
  have hsize : ((({} : Context).history twoPlans).scene.heap 0).blockSize? (Device.heapBase + 64) =
      some 16 := by decide +kernel
  refine ⟨c', hrun, hused 0 (by decide), hclears.unused,
    (hclears.others 1 (by decide)).2.1.2 (hused 1 (by decide)), hclears.pending 1 0 5 (by decide),
    by decide +kernel, ?_⟩
  rw [hn', ← hn, hsize]

end Context

end KernelForge.Host
