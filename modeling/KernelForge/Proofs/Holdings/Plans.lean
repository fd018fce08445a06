import KernelForge.Host.Context
import KernelForge.Proofs.Holdings.Device

/-!
# What plans hold is what devices have given out

A plan holds kernels, parameter frames, buffers and queues on each device. A context is `Balanced`
when on each device exactly what its plans hold is out, each resource held once. Every operation on
plans keeps this, whether it succeeds or fails in the middle, as long as no request is so large
that its end passes the last address. What a plan holds can therefore always be taken back.
-/

namespace KernelForge.Host

open List
open Device (Info Simulator Resource Operate)

/-! ## Holdings -/

/-- What a frame holds: its block and those outgrown. -/
def Frame.holds (f : Frame) : List Resource := .block f.address :: f.retired.map .block

def KernelCache.holds (k : KernelCache) : List Resource := k.byKey.values.map (.kernel ·.handle)

/-- What a share holds, in the order in which it is given back. -/
def Share.holds (s : Share) : List Resource :=
  s.kernels.holds ++ (s.frames.values.flatMap Frame.holds ++ s.buffers.map (.block ·.address))

def ThreadQueues.holds (q : ThreadQueues) (device : Nat) : List Resource :=
  (q.onDevice device).values.map .list

def Plan.holds (p : Plan) (device : Nat) : List Resource :=
  (p.shares.get? device).elim [] Share.holds ++ p.queues.holds device

namespace Context

/-- What all plans hold on a device. -/
def holds (c : Context) (device : Nat) : List Resource := c.plans.values.flatMap (·.holds device)

/-- A plan; one that is not in use holds nothing. -/
def plan (c : Context) (plan : Nat) : Plan := (c.plans.get? plan).getD {}

def setPlan (c : Context) (plan : Nat) (p : Plan) : Context :=
  { c with plans := c.plans.insert plan p }

def setDevice (c : Context) (device : Nat) (d : Simulator) : Context :=
  { c with devices := c.devices.setIfInBounds device d }

variable (c : Context) (plan device : Nat)

/-- Setting a plan exchanges what it holds and leaves what the others hold. -/
theorem setPlan_holds : ∃ rest, (c.holds device).Perm ((c.plan plan).holds device ++ rest) ∧
    ∀ p, ((c.setPlan plan p).holds device).Perm (p.holds device ++ rest) := by
  obtain ⟨others, hall, hset⟩ := c.plans.values_insert_perm plan
  refine ⟨others.flatMap (·.holds device), ?_, fun p => ?_⟩
  · refine (hall.flatMap_right _).trans ?_
    rw [Context.plan]
    cases c.plans.get? plan with
    | none => exact .refl _
    | some => simp
  · refine ((hset p).flatMap_right _).trans ?_
    rw [flatMap_cons]

theorem share_holds :
    (c.share plan device).holds = ((c.plan plan).shares.get? device).elim [] Share.holds := by
  unfold share Context.plan
  cases c.plans.get? plan with
  | none => rfl
  | some p =>
    cases h : p.shares.get? device with
    | none => simp [h]; rfl
    | some => simp [h]

theorem setShare_holds : ∃ rest, (c.holds device).Perm ((c.share plan device).holds ++ rest) ∧
    ∀ s, ((c.setShare plan device s).holds device).Perm (s.holds ++ rest) := by
  obtain ⟨others, hall, hset⟩ := c.setPlan_holds plan device
  refine ⟨(c.plan plan).queues.holds device ++ others, ?_, fun s => ?_⟩
  · rw [share_holds, ← append_assoc]
    exact hall
  · refine (hset _).trans ?_
    rw [Plan.holds, Table.get?_insert, if_pos rfl, append_assoc]
    exact .refl _

/-- Forgetting a plan leaves what the others hold. -/
theorem erasePlan_holds : (c.holds device).Perm ((c.plan plan).holds device ++
    { c with plans := c.plans.erase plan }.holds device) := by
  unfold Context.plan holds
  cases h : c.plans.get? plan with
  | none =>
    rw [Table.erase_of_none h]
    exact .refl _
  | some =>
    refine ((Table.values_erase_perm h).symm.flatMap_right _).trans ?_
    exact .refl _

/-- Setting queues exchanges what they hold. -/
theorem setQueues_holds : ∃ rest, (c.holds device).Perm ((c.queues plan).holds device ++ rest) ∧
    ∀ q, ((c.setQueues plan q).holds device).Perm (q.holds device ++ rest) := by
  obtain ⟨others, hall, hset⟩ := c.setPlan_holds plan device
  refine ⟨((c.plan plan).shares.get? device).elim [] Share.holds ++ others, ?_, fun q => ?_⟩
  · refine hall.trans ?_
    rw [Plan.holds, append_assoc]
    exact perm_append_comm_assoc _ _ _
  · refine (hset _).trans ?_
    rw [Plan.holds, append_assoc]
    exact perm_append_comm_assoc _ _ _

end Context

/-! ## Looking at plans -/

namespace Context

variable (c : Context) (plan device p i : Nat)

theorem share_setShare (s : Share) :
    (c.setShare plan device s).share p i = if plan = p ∧ device = i then s else c.share p i := by
  unfold share setShare
  rw [Table.get?_insert]
  by_cases hp : plan = p
  · subst hp
    rw [if_pos rfl, Option.bind_some, Table.get?_insert]
    by_cases hi : device = i
    · simp [hi]
    · rw [if_neg hi, if_neg fun h => hi h.2]
      cases c.plans.get? plan with
      | none | some => rfl
  · rw [if_neg hp, if_neg fun h => hp h.1]
    rfl

@[simp]
theorem queues_setShare (s : Share) : (c.setShare plan device s).queues p = c.queues p := by
  unfold queues setShare
  rw [Table.get?_insert]
  by_cases hp : plan = p
  · subst hp
    simp
  · rw [if_neg hp]

@[simp]
theorem share_setQueues (q : ThreadQueues) : (c.setQueues plan q).share p i = c.share p i := by
  unfold share setQueues
  rw [Table.get?_insert]
  by_cases hp : plan = p
  · subst hp
    rw [if_pos rfl]
    cases c.plans.get? plan with
    | none | some => rfl
  · rw [if_neg hp]
    rfl

theorem queues_setQueues (q : ThreadQueues) :
    (c.setQueues plan q).queues p = if plan = p then q else c.queues p := by
  unfold queues setQueues
  rw [Table.get?_insert]
  by_cases hp : plan = p
  · rw [if_pos hp, if_pos hp]
    rfl
  · rw [if_neg hp, if_neg hp]

end Context

/-! ## Balance -/

/-- On each device exactly what the plans hold is out. -/
structure Balanced (info : Nat → Info) (c : Context) : Prop where
  devices : ∀ (i : Nat) (d : Simulator), c.devices[i]? = some d →
    d.GivesOut (info i) (c.holds i)
  keyed : ∀ p ∈ c.plans.values, p.queues.byDevice.Keyed

/-- The same but for one device, on which other resources are out. -/
structure Unsettled (info : Nat → Info) (device : Nat) (rs : List Resource)
    (c : Context) : Prop where
  devices : ∀ (i : Nat) (d : Simulator), c.devices[i]? = some d →
    d.GivesOut (info i) (if i = device then rs else c.holds i)
  keyed : ∀ p ∈ c.plans.values, p.queues.byDevice.Keyed

variable {info : Nat → Info} {c c' : Context} {plan device thread : Nat} {rs rs' : List Resource}

theorem Balanced.unsettled (h : Balanced info c) (device : Nat) :
    Unsettled info device (c.holds device) c where
  devices i d hd := by
    have hi := h.devices i d hd
    split
    · next heq => exact heq ▸ hi
    · exact hi
  keyed := h.keyed

section

variable (h : Unsettled info device rs c)

include h

theorem Unsettled.settle (hp : rs.Perm (c.holds device)) : Balanced info c where
  devices i d hd := by
    have hi := h.devices i d hd
    split at hi
    · next heq => exact heq ▸ (heq ▸ hi).perm hp
    · exact hi
  keyed := h.keyed

/-- A device that does not exist has nothing to settle. -/
theorem Unsettled.settle_of_none (hnone : c.devices[device]? = none) : Balanced info c where
  devices i d hd := by
    have hi := h.devices i d hd
    split at hi
    · next heq =>
      rw [heq, hnone] at hd
      cases hd
    · exact hi
  keyed := h.keyed

theorem Unsettled.perm (hp : rs.Perm rs') : Unsettled info device rs' c where
  devices i d hd := by
    have hi := h.devices i d hd
    split
    · next heq =>
      rw [if_pos heq] at hi
      exact hi.perm hp
    · next hne => rwa [if_neg hne] at hi
  keyed := h.keyed

theorem Unsettled.givesOut {d : Simulator}
    (hd : c.devices[device]? = some d) : d.GivesOut (info device) rs := by
  have hi := h.devices device d hd
  rwa [if_pos rfl] at hi

theorem Unsettled.setDevice {d : Simulator}
    (hd : d.GivesOut (info device) rs') : Unsettled info device rs' (c.setDevice device d) where
  devices i e he := by
    have hget : (c.devices.setIfInBounds device d)[i]? = _ := Array.getElem?_setIfInBounds
    split
    · next heq =>
      subst heq
      have he' : (c.devices.setIfInBounds i d)[i]? = some e := he
      rw [hget, if_pos rfl] at he'
      split at he'
      · cases he'
        exact hd
      · cases he'
    · next hne =>
      have he' : (c.devices.setIfInBounds device d)[i]? = some e := he
      rw [hget, if_neg (Ne.symm hne)] at he'
      have hi := h.devices i e he'
      rwa [if_neg hne] at hi
  keyed := h.keyed

end

theorem keyed_plan (h : ∀ p ∈ c.plans.values, p.queues.byDevice.Keyed) (plan : Nat) :
    (c.queues plan).byDevice.Keyed := by
  unfold Context.queues
  cases hp : c.plans.get? plan with
  | none => exact nodup_nil
  | some p => exact h p (mem_map.2 ⟨_, Table.mem_entries_of_get? hp, rfl⟩)

theorem keyed_setPlan (h : ∀ p ∈ c.plans.values, p.queues.byDevice.Keyed) {p : Plan}
    (hp : p.queues.byDevice.Keyed) :
    ∀ p' ∈ (c.setPlan plan p).plans.values, p'.queues.byDevice.Keyed := by
  obtain ⟨others, hall, hset⟩ := c.plans.values_insert_perm plan
  intro p' hp'
  rcases mem_cons.1 ((hset p).mem_iff.1 hp') with rfl | hmem
  · exact hp
  · exact h p' (hall.mem_iff.2 (mem_append_right _ hmem))

/-- A plan that holds the same as before. -/
theorem Unsettled.setPlan (h : Unsettled info device rs c) {p : Plan}
    (hsame : ∀ i, i ≠ device → (p.holds i).Perm ((c.plan plan).holds i))
    (hkeyed : p.queues.byDevice.Keyed) : Unsettled info device rs (c.setPlan plan p) where
  devices i d hd := by
    have hi := h.devices i d hd
    split
    · next heq => rwa [if_pos heq] at hi
    · next hne =>
      rw [if_neg hne] at hi
      obtain ⟨others, hall, hset⟩ := c.setPlan_holds plan i
      exact hi.perm (hall.trans (((hsame i hne).append_right others).symm.trans (hset p).symm))
  keyed := keyed_setPlan h.keyed hkeyed

theorem Unsettled.setShare (h : Unsettled info device rs c) (plan : Nat) (s : Share) :
    Unsettled info device rs (c.setShare plan device s) := by
  refine h.setPlan (fun i hi => ?_) (keyed_plan h.keyed plan)
  rw [Plan.holds, Table.get?_insert, if_neg (Ne.symm hi)]
  exact List.Perm.refl _

theorem Unsettled.setQueues (h : Unsettled info device rs c) (plan : Nat) {q : ThreadQueues}
    (hsame : ∀ i, i ≠ device → q.onDevice i = (c.queues plan).onDevice i)
    (hkeyed : q.byDevice.Keyed) : Unsettled info device rs (c.setQueues plan q) := by
  refine h.setPlan (fun i hi => ?_) hkeyed
  have hq : q.holds i = (c.queues plan).holds i := by
    rw [ThreadQueues.holds, hsame i hi]
    rfl
  show (_ ++ q.holds i).Perm _
  rw [hq]
  exact .refl _

/-- A share in which what is out on the device is held. -/
theorem Unsettled.settleShare (h : Unsettled info device rs c) {s : Share}
    (hrs : ∀ rest, (c.holds device).Perm ((c.share plan device).holds ++ rest) →
      rs.Perm (s.holds ++ rest)) : Balanced info (c.setShare plan device s) := by
  obtain ⟨rest, hall, hset⟩ := c.setShare_holds plan device
  exact (h.setShare plan s).settle ((hrs rest hall).trans (hset s).symm)

/-! ## Frames and buffers -/

namespace Share

variable (s : Share)

/-- Setting a thread's frame exchanges what it holds. -/
theorem insertFrame_holds (thread : Nat) : ∃ rest,
    s.holds.Perm ((s.frames.get? thread).elim [] Frame.holds ++ rest) ∧
      ∀ f, { s with frames := s.frames.insert thread f }.holds.Perm (f.holds ++ rest) := by
  obtain ⟨others, hall, hset⟩ := s.frames.values_insert_perm thread
  refine ⟨s.kernels.holds ++ (others.flatMap Frame.holds ++ s.buffers.map (.block ·.address)),
    ?_, fun f => ?_⟩
  · have hframes : (s.frames.values.flatMap Frame.holds).Perm
        ((s.frames.get? thread).elim [] Frame.holds ++ others.flatMap Frame.holds) := by
      refine (hall.flatMap_right _).trans ?_
      cases s.frames.get? thread with
      | none => exact List.Perm.refl _
      | some => simp
    refine ((hframes.append_right _).append_left _).trans ?_
    rw [append_assoc]
    exact perm_append_comm_assoc _ _ _
  · have hframes : ((s.frames.insert thread f).values.flatMap Frame.holds).Perm
        (f.holds ++ others.flatMap Frame.holds) := by
      refine ((hset f).flatMap_right _).trans ?_
      rw [flatMap_cons]
    refine ((hframes.append_right _).append_left _).trans ?_
    rw [append_assoc]
    exact perm_append_comm_assoc _ _ _

theorem addBuffer_holds (b : Buffer) :
    { s with buffers := s.buffers ++ [b] }.holds.Perm (.block b.address :: s.holds) := by
  unfold holds
  rw [map_append, ← append_assoc, ← append_assoc]
  exact (perm_append_singleton _ _).trans (by rw [append_assoc])

/-- A buffer that is given up is no longer held. -/
theorem eraseBuffer_holds {address : Nat} (h : s.buffers.any (·.address == address)) :
    s.holds.Perm (.block address ::
      { s with buffers := s.buffers.eraseP (·.address == address) }.holds) := by
  obtain ⟨b, hb, hbaddress⟩ := any_eq_true.1 h
  obtain ⟨b', before, behind, -, haddress, hsplit, herase⟩ :=
    exists_of_eraseP (p := (·.address == address)) hb hbaddress
  unfold holds
  rw [herase, hsplit, map_append, map_append, map_cons, beq_iff_eq.1 haddress]
  rw [← append_assoc, ← append_assoc, ← append_assoc, ← append_assoc]
  exact perm_middle

end Share

/-! ## Queues and caches -/

namespace ThreadQueues

variable {q : ThreadQueues} {d : Simulator} {about : Info}

theorem onDevice_insert (q : ThreadQueues) (device thread queue i : Nat) :
    (q.insert device thread queue).onDevice i =
      if device = i then (q.onDevice device).insert thread queue else q.onDevice i := by
  unfold insert onDevice
  rw [Table.get?_insert]
  split <;> rfl

theorem onDevice_erase (hq : q.byDevice.Keyed) (device thread i : Nat) :
    (q.erase device thread).onDevice i =
      if device = i then (q.onDevice device).erase thread else q.onDevice i := by
  unfold erase
  dsimp only
  split
  · next hempty =>
    have hrest : (q.onDevice device).erase thread = ∅ := congrArg Table.mk (isEmpty_iff.1 hempty)
    rw [hrest]
    unfold onDevice
    rw [Table.get?_erase hq]
    split <;> rfl
  · unfold onDevice
    rw [Table.get?_insert]
    split <;> rfl

/-- A new queue is held with those there were. -/
theorem holds_insert {device thread : Nat} (h : q.get? device thread = none) (list : Nat) :
    ((q.insert device thread list).holds device).Perm (.list list :: q.holds device) := by
  rw [holds, onDevice_insert, if_pos rfl]
  unfold Table.values
  rw [Table.entries_insert_of_none h, map_append, map_append]
  exact perm_append_singleton _ _

theorem acquire_gives (q : ThreadQueues) (device thread : Nat) (hq : q.byDevice.Keyed)
    (hd : d.GivesOut about (q.holds device ++ rs)) :
    ∃ list q' d', q.acquire device thread d = .ok (list, q') d' ∧
      d'.GivesOut about (q'.holds device ++ rs) ∧ q'.byDevice.Keyed ∧
      ∀ i, i ≠ device → q'.onDevice i = q.onDevice i := by
  unfold acquire
  cases h : q.get? device thread with
  | some queue => exact ⟨queue, q, d, rfl, hd, hq, fun i _ => rfl⟩
  | none =>
    obtain ⟨list, d', hrun, hd'⟩ := Operate.createQueue_gives hd
    refine ⟨list, q.insert device thread list, d', ?_, ?_, hq.insert _ _, fun i hi => ?_⟩
    · exact bind_of_ok hrun
    · exact hd'.perm ((holds_insert h list).symm.append_right rs)
    · rw [onDevice_insert, if_neg (Ne.symm hi)]

/-- A queue that a thread gives up is no longer held. -/
theorem holds_erase (hq : q.byDevice.Keyed) {device thread list : Nat}
    (h : q.get? device thread = some list) :
    (q.holds device).Perm (.list list :: (q.erase device thread).holds device) := by
  rw [holds, holds, onDevice_erase hq, if_pos rfl]
  exact (Table.values_erase_perm h).symm.map _

theorem erase_keyed (hq : q.byDevice.Keyed) (device thread : Nat) :
    (q.erase device thread).byDevice.Keyed := by
  unfold erase
  dsimp only
  split
  · exact hq.erase device
  · exact hq.insert device _

/-- No device is listed twice, and no thread twice on a device. -/
structure Keyed (q : ThreadQueues) : Prop where
  devices : q.byDevice.Keyed
  threads : ∀ i, (q.onDevice i).Keyed

theorem get?_insert (q : ThreadQueues) (device thread list i t : Nat) :
    (q.insert device thread list).get? i t =
      if device = i ∧ thread = t then some list else q.get? i t := by
  unfold get?
  rw [onDevice_insert]
  by_cases hi : device = i
  · subst hi
    simp [Table.get?_insert]
  · rw [if_neg hi, if_neg fun h => hi h.1]

theorem get?_erase (hq : q.Keyed) (device thread i t : Nat) :
    (q.erase device thread).get? i t =
      if device = i ∧ thread = t then none else q.get? i t := by
  unfold get?
  rw [onDevice_erase hq.devices]
  by_cases hi : device = i
  · subst hi
    simp [Table.get?_erase (hq.threads device)]
  · rw [if_neg hi, if_neg fun h => hi h.1]

theorem Keyed.insert (hq : q.Keyed) (device thread list : Nat) :
    (q.insert device thread list).Keyed where
  devices := hq.devices.insert _ _
  threads i := by
    rw [onDevice_insert]
    split
    · exact (hq.threads device).insert _ _
    · exact hq.threads i

theorem Keyed.erase (hq : q.Keyed) (device thread : Nat) : (q.erase device thread).Keyed where
  devices := erase_keyed hq.devices _ _
  threads i := by
    rw [onDevice_erase hq.devices]
    split
    · exact (hq.threads device).erase _
    · exact hq.threads i

theorem keyed_empty : ({} : ThreadQueues).Keyed := ⟨nodup_nil, fun _ => nodup_nil⟩

end ThreadQueues

namespace KernelCache

variable {k : KernelCache} {id entry : String} {binary : List UInt8} {source : Option Source}
  {d d₁ d₂ : Simulator} {handle : Nat}

theorem install_error {e : Error} (h : Operate.build binary entry = .error e) :
    k.install id entry binary source d = .error e d :=
  bind_of_error (Operate.install_error h)

/-- A kernel is put on the device, and then the one under its key is released. -/
theorem install_ok (hinstall : Operate.install binary entry d = .ok handle d₁)
    (hrelease : (k.getKey? (cacheKey id entry)).forM
      (fun previous => Operate.releaseKernel previous.handle) d₁ = .ok () d₂) :
    k.install id entry binary source d =
      .ok (⟨cacheKey id entry, entry, binary, source, handle⟩, ⟨k.byKey.insert (cacheKey id entry)
        ⟨cacheKey id entry, entry, binary, source, handle⟩⟩) d₂ :=
  (bind_of_ok hinstall).trans (bind_of_ok hrelease)

/-- A kernel takes the place of the one under its key, which is released. -/
theorem install_gives (k : KernelCache) (id entry : String) (binary : List UInt8)
    (source : Option Source) {about : Info} (hd : d.GivesOut about (k.holds ++ rs)) :
    (∃ e, Operate.build binary entry = .error e ∧
      k.install id entry binary source d = .error e d) ∨
      ∃ kernel k' d', k.install id entry binary source d = .ok (kernel, k') d' ∧
        kernel.entry = entry ∧ d'.GivesOut about (k'.holds ++ rs) := by
  rcases Operate.install_gives binary entry hd with ⟨e, hbuild, -⟩ | ⟨handle, d₁, hok, hd₁⟩
  · exact .inl ⟨e, hbuild, install_error hbuild⟩
  · let kernel : InstalledKernel := ⟨cacheKey id entry, entry, binary, source, handle⟩
    obtain ⟨others, hall, hset⟩ := k.byKey.values_insert_perm (cacheKey id entry)
    have hnew : (KernelCache.mk (k.byKey.insert (cacheKey id entry) kernel)).holds.Perm
        (.kernel handle :: others.map (.kernel ·.handle)) := (hset kernel).map _
    cases hprev : k.getKey? (cacheKey id entry) with
    | none =>
      refine .inr ⟨kernel, _, d₁, install_ok hok (by rw [hprev]; rfl), rfl, hd₁.perm ?_⟩
      have hheld : k.holds.Perm (others.map (.kernel ·.handle)) := by
        have hmap := hall.map (Resource.kernel ·.handle)
        rwa [show k.byKey.get? (cacheKey id entry) = none from hprev] at hmap
      exact ((hheld.cons _).trans hnew.symm).append_right rs
    | some previous =>
      have hheld : k.holds.Perm (.kernel previous.handle :: others.map (.kernel ·.handle)) := by
        have hmap := hall.map (Resource.kernel ·.handle)
        rwa [show k.byKey.get? (cacheKey id entry) = some previous from hprev] at hmap
      have hfirst : d₁.GivesOut about (.kernel previous.handle ::
          (.kernel handle :: (others.map (.kernel ·.handle) ++ rs))) :=
        hd₁.perm (((hheld.append_right rs).cons _).trans (.swap _ _ _))
      obtain ⟨d₂, hrelease, hd₂⟩ := Operate.release_takes hfirst
      exact .inr ⟨kernel, _, d₂, install_ok hok (by rw [hprev]; exact hrelease), rfl,
        hd₂.perm (hnew.symm.append_right rs)⟩

end KernelCache

end KernelForge.Host
