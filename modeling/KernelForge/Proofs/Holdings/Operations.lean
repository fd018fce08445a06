import KernelForge.Proofs.Holdings.Steps

/-!
# Every operation keeps the balance

One lemma for each operation on plans, then histories: from plans that hold nothing on devices
that have given nothing out, no sequence of operations leaks a resource or releases one twice.
-/

namespace KernelForge.Host

open List hiding get set
open Device (Info Simulator Resource Operate)
open Device.Operate (Idle record_idle releaseAll_takes release_takes)

variable {info : Nat → Info} {c c' : Context} {plan device thread : Nat} {rs : List Resource}

def KeepsBalance (info : Nat → Info) (c c' : Context) : Prop := Balanced info c → Balanced info c'

instance : Chain (KeepsBalance info) where
  refl _ h := h
  trans a b h := b (a h)

namespace Control

/-! ## On a device -/

section OnDevice

variable {α β : Type} {action : Operate α} {f : α → Control β} {d d' : Simulator}

theorem onDevice_of_none (h : c.devices[device]? = none) (action : Operate α) :
    onDevice device action c = .error (.unknownDevice device) c := by
  simp only [onDevice, get_bind, h]
  rfl

theorem onDevice_of_some {d : Simulator} (h : c.devices[device]? = some d) (action : Operate α) :
    onDevice device action c = match action d with
      | .ok a d' => .ok a (c.setDevice device d')
      | .error e d' => .error e (c.setDevice device d') := by
  simp only [onDevice, get_bind, h, EStateM.run]
  cases action d with
  | ok | error => rfl

theorem onDevice_ok {a : α} (hd : c.devices[device]? = some d)
    (h : action d = .ok a d') : onDevice device action c = .ok a (c.setDevice device d') := by
  rw [onDevice_of_some hd, h]

theorem onDevice_error {e : Error} (hd : c.devices[device]? = some d)
    (h : action d = .error e d') : onDevice device action c = .error e (c.setDevice device d') := by
  rw [onDevice_of_some hd, h]

/-- An action on a device, and what is then done with its result. -/
theorem onDevice_bind (hc : Balanced info c)
    (hact : ∀ d : Simulator, d.GivesOut (info device) (c.holds device) →
      (∃ e d', action d = .error e d' ∧ d'.GivesOut (info device) (c.holds device)) ∨
      ∃ a d', action d = .ok a d' ∧ Balanced info (after (f a) (c.setDevice device d'))) :
    Balanced info (after (onDevice device action >>= f) c) := by
  cases hd : c.devices[device]? with
  | none =>
    rw [after_bind_of_error (onDevice_of_none hd action)]
    exact hc
  | some d =>
    have hrun := onDevice_of_some hd action
    rcases hact d (hc.devices device d hd) with ⟨e, d', herr, hd'⟩ | ⟨a, d', hok, hrest⟩
    · rw [herr] at hrun
      rw [after_bind_of_error hrun]
      exact ((hc.unsettled device).setDevice hd').settle (.refl _)
    · rw [hok] at hrun
      rw [after_bind_of_ok hrun]
      exact hrest

theorem onDevice_idle (h : Idle action) :
    Along (KeepsBalance info) (onDevice device action) := by
  intro c hc
  rw [← bind_pure (onDevice device action)]
  refine onDevice_bind hc fun d hd => ?_
  have hsame := h d
  cases hrun : action d with
  | error e d' =>
    rw [after_of_error hrun] at hsame
    exact .inl ⟨e, d', rfl, hd.same hsame⟩
  | ok a d' =>
    rw [after_of_ok hrun] at hsame
    exact .inr ⟨a, d', rfl, ((hc.unsettled device).setDevice (hd.same hsame)).settle (.refl _)⟩

/-- What is out and not held is taken back. -/
theorem onDevice_settles (hc : Unsettled info device rs c)
    (hact : ∀ d : Simulator, d.GivesOut (info device) rs →
      ∃ a d', action d = .ok a d' ∧ d'.GivesOut (info device) (c.holds device)) :
    Balanced info (after (onDevice device action) c) := by
  cases hd : c.devices[device]? with
  | none =>
    rw [after_of_error (onDevice_of_none hd _)]
    exact hc.settle_of_none hd
  | some d =>
    obtain ⟨a, d', hrun, hd'⟩ := hact d (hc.givesOut hd)
    have hon := onDevice_of_some hd action
    rw [hrun] at hon
    rw [after_of_ok hon]
    exact (hc.setDevice hd').settle (.refl _)

end OnDevice

/-! ## Plans in use -/

theorem deviceInfo_keeps : Along (KeepsBalance info) (deviceInfo device) :=
  onDevice_idle fun d => Chain.refl d

theorem track_holds (i : Nat) : ((after (track plan) c).holds i).Perm (c.holds i) := by
  obtain ⟨others, hall, hset⟩ := c.setPlan_holds plan i
  exact (hset (c.plan plan)).trans hall.symm

theorem track_unsettled (plan : Nat) (h : Unsettled info device rs c) :
    Unsettled info device rs (after (track plan) c) := by
  have hset : Unsettled info device rs (c.setPlan plan (c.plan plan)) :=
    h.setPlan (fun i _ => .refl _) (keyed_plan h.keyed plan)
  exact ⟨hset.devices, hset.keyed⟩

theorem track_keeps : Along (KeepsBalance info) (track plan) := fun _ hc =>
  (track_unsettled plan (hc.unsettled 0)).settle (track_holds 0).symm

theorem claim_keeps : Along (KeepsBalance info) (claim plan device) :=
  deviceInfo_keeps.bind fun _ => track_keeps.bind fun _ => .getThen fun _ => .pure _

theorem changeShare_keeps {f : Share → Share} (hf : ∀ s, (f s).holds = s.holds) :
    Along (KeepsBalance info) (changeShare plan device f) := fun c hc =>
  (hc.unsettled device).settleShare fun rest hall => by rwa [hf]

theorem queue_keeps : Along (KeepsBalance info) (queue plan device thread) := by
  refine claim_keeps.bind fun _ => .get fun c hc => onDevice_bind hc fun d hd => ?_
  obtain ⟨rest, hall, hset⟩ := c.setQueues_holds plan device
  obtain ⟨list, q, d', hrun, hd', hkeyed, hsame⟩ :=
    (c.queues plan).acquire_gives device thread (keyed_plan hc.keyed plan) (hd.perm hall)
  refine .inr ⟨_, d', hrun, ?_⟩
  have hafter : Unsettled info device (q.holds device ++ rest) (c.setDevice device d') :=
    (hc.unsettled device).setDevice hd'
  exact (hafter.setQueues plan hsame hkeyed).settle (hset q).symm

/-! ## Events -/

theorem register_keeps (d : Descriptor) (b : Brackets) :
    Along (KeepsBalance info) (register plan device d b) := by
  refine .getThen fun c => (Along.ofExcept _).bind fun r => ?_
  refine .bind (changeShare_keeps ?_) fun _ => .pure _
  exact fun s => rfl

theorem retain_keeps (index : Nat) : Along (KeepsBalance info) (retain plan device index) := by
  refine .getThen fun c => (Along.ofExcept _).bind fun events => ?_
  exact changeShare_keeps fun s => rfl

theorem release_keeps (index : Nat) : Along (KeepsBalance info) (release plan device index) := by
  refine .getThen fun c => (Along.ofExcept _).bind fun events => ?_
  exact changeShare_keeps fun s => rfl

theorem event_keeps (index : Nat) : Along (KeepsBalance info) (event plan device index) :=
  .getThen fun _ => .ofExcept _

theorem bracketed_keeps {d : Descriptor} {work : Nat → Operate Unit}
    (hwork : ∀ list, Idle (work list)) :
    Along (KeepsBalance info) (bracketed plan device thread d work) := by
  refine queue_keeps.bind fun list => (onDevice_idle Operate.newStamp_idle).bind fun start =>
    (onDevice_idle Operate.newStamp_idle).bind fun stop => (register_keeps d _).bind fun index => ?_
  have hrecording : Idle (do
      Operate.record list (.stamp start)
      work list
      Operate.record list (.stamp stop)) :=
    (record_idle _ _).bind fun _ => (hwork list).bind fun _ => record_idle _ _
  exact (Along.tryCatch (onDevice_idle hrecording) fun e =>
    (release_keeps index).bind fun _ => .throw e).bind fun _ => .pure _

theorem barrier_keeps (d : Descriptor) : Along (KeepsBalance info) (barrier plan device thread d) :=
  bracketed_keeps fun list => record_idle list _

/-! ## Kernels -/

/-- A device gives out the kernels of a share, and all else that the host holds. -/
theorem kernels_given {d : Simulator} (hd : d.GivesOut (info device) (c.holds device))
    (plan : Nat) : ∃ rest, (c.holds device).Perm ((c.share plan device).holds ++ rest) ∧
      d.GivesOut (info device) ((c.share plan device).kernels.holds ++
        ((c.share plan device).frames.values.flatMap Frame.holds ++
          (c.share plan device).buffers.map (.block ·.address) ++ rest)) := by
  obtain ⟨rest, hall, -⟩ := c.setShare_holds plan device
  refine ⟨rest, hall, ?_⟩
  rw [← append_assoc]
  exact hd.perm hall

theorem installFrom_keeps (id entry : String) (binary : List UInt8) (source : Option Source) :
    Along (KeepsBalance info) (installFrom plan device id entry binary source) := by
  refine .get fun c hc => onDevice_bind hc fun d hd => ?_
  obtain ⟨rest, hall, hheld⟩ := kernels_given hd plan
  rcases KernelCache.install_gives _ id entry binary source hheld with
    ⟨e, -, herr⟩ | ⟨kernel, k, d', hok, -, hd'⟩
  · exact .inl ⟨e, d, herr, hd⟩
  · refine .inr ⟨_, d', hok, ?_⟩
    rw [← append_assoc] at hd'
    have hafter : Unsettled info device
        ({ c.share plan device with kernels := k }.holds ++ rest) (c.setDevice device d') :=
      (hc.unsettled device).setDevice hd'
    exact hafter.settleShare fun rest' hall' => .append_left _
      ((perm_append_left_iff _).1 (hall.symm.trans hall'))

/-- Staging fails where files cannot be staged but are to be. -/
theorem stage_cases (id entry : String) (binary : List UInt8) (c : Context) :
    (stage id entry binary c = .error .staging c ∧ c.settings.stageToDisk = true ∧
      (c.stagingOpen && canStage (stagedName id entry)) = false) ∨
    ∃ source staged, stage id entry binary c = .ok source { c with staged } := by
  have hrun : stage id entry binary c = (if !c.settings.stageToDisk then return none
      else if c.stagingOpen && canStage (stagedName id entry) then do
        set { c with staged := c.staged ++ [(stagedName id entry, binary)] }
        return some (.staged (stagedName id entry))
      else throw .staging : Control (Option Source)) c := rfl
  rw [hrun]
  split
  · exact .inr ⟨none, c.staged, rfl⟩
  · next hdisk =>
    split
    · exact .inr ⟨_, _, rfl⟩
    · next hopen => exact .inl ⟨rfl, by simpa using hdisk, by simpa using hopen⟩

theorem stage_keeps (id entry : String) (binary : List UInt8) :
    Along (KeepsBalance info) (stage id entry binary) := by
  intro c hc
  rcases stage_cases id entry binary c with ⟨hrun, -⟩ | ⟨source, staged, hrun⟩
  · rw [after_of_error hrun]
    exact hc
  · rw [after_of_ok hrun]
    exact ⟨hc.devices, hc.keyed⟩

/-! ## Buffers -/

/-- A new block that is then held. -/
theorem allocate_bind {β : Type} {size : Nat} {f : Nat → Control β} (hc : Balanced info c)
    (hf : ∀ a d, Unsettled info device (.block a :: c.holds device) (c.setDevice device d) →
      Balanced info (after (f a) (c.setDevice device d))) :
    Balanced info (after (onDevice device (Operate.allocate size) >>= f) c) := by
  refine onDevice_bind hc fun d hd => ?_
  rcases Operate.allocate_gives hd size with ⟨e, herr⟩ | ⟨a, d', hok, hd'⟩
  · exact .inl ⟨e, d, herr, hd⟩
  · exact .inr ⟨a, d', hok, hf a d' ((hc.unsettled device).setDevice hd')⟩

theorem allocate_keeps (size : Nat) : Along (KeepsBalance info) (allocate plan device size) := by
  intro c hc
  refine allocate_bind hc fun a d hu => ?_
  have htracked := track_unsettled plan hu
  refine htracked.settleShare fun rest hall => ?_
  have hheld := (track_holds device).symm.trans hall
  have hadded := (((after (track plan) (c.setDevice device d)).share plan device).addBuffer_holds
    ⟨device, a, size⟩).append_right rest
  exact (hheld.cons _).trans hadded.symm

theorem free_keeps (buffer : Buffer) : Along (KeepsBalance info) (free plan buffer) := by
  refine Along.get fun c => ?_
  dsimp only
  split
  · next hany =>
    intro hc
    obtain ⟨rest, hall, hset⟩ := c.setShare_holds plan buffer.device
    have hu := (hc.unsettled buffer.device).setShare plan
      { c.share plan buffer.device with
        buffers := (c.share plan buffer.device).buffers.eraseP (·.address == buffer.address) }
    have hback := hu.perm (hall.trans (((Share.eraseBuffer_holds _ hany).append_right rest).trans
      ((hset _).symm.cons _)))
    exact onDevice_settles hback fun d hd => ⟨(), release_takes hd⟩
  · exact Along.throw _ c

theorem transferStart_keeps (buffer : Buffer) (offset length : Nat) :
    Along (KeepsBalance info) (transferStart buffer offset length) := by
  unfold transferStart
  split
  · exact .throw _
  · exact .ofExcept _

theorem enqueueWrite_keeps (buffer : Buffer) (offset : Nat) (data : List UInt8) :
    Along (KeepsBalance info) (enqueueWrite plan thread buffer offset data) :=
  (transferStart_keeps _ _ _).bind fun _ => bracketed_keeps fun list =>
    (record_idle list _).bind fun _ => record_idle list _

theorem enqueueRead_keeps (buffer : Buffer) (offset length : Nat) :
    Along (KeepsBalance info) (enqueueRead plan thread buffer offset length) := by
  refine (transferStart_keeps _ _ _).bind fun _ => claim_keeps.bind fun _ =>
    (onDevice_idle Operate.newSink_idle).bind fun sink => ?_
  refine .bind (bracketed_keeps fun list =>
    (record_idle list _).bind fun _ => record_idle list _) fun index => ?_
  exact (event_keeps index).bind fun _ => .pure _

theorem takeBytes_keeps (r : PendingRead) : Along (KeepsBalance info) (takeBytes r) := by
  have hcomplete : Along (KeepsBalance info) (isComplete r) := .getThen fun _ => .pure _
  refine hcomplete.bind fun complete => ?_
  split
  · exact onDevice_idle (Operate.takeSink_idle _)
  · exact .throw _

/-! ## Launches -/

theorem frameFor_keeps (bytes : Nat) :
    Along (KeepsBalance info) (frameFor plan device thread bytes) := by
  refine Along.get fun c => ?_
  cases hframe : (c.share plan device).frames.get? thread with
  | some frame =>
    dsimp only
    split
    · exact Along.pure _ c
    · intro hc
      refine allocate_bind hc fun a d hu => hu.settleShare fun rest hall => ?_
      obtain ⟨others, hold, hset⟩ := (c.share plan device).insertFrame_holds thread
      rw [hframe] at hold
      -- the outgrown frame is held as a retired one
      have hgrown : (Frame.holds ⟨a, bytes.nextPowerOfTwo, frame.retired ++ [frame.address]⟩).Perm
          (.block a :: frame.holds) := by
        unfold Frame.holds
        rw [map_append]
        exact (perm_append_singleton _ _).cons _
      have hnew := (hset ⟨a, bytes.nextPowerOfTwo, frame.retired ++ [frame.address]⟩).trans
        (hgrown.append_right others)
      exact ((hall.trans (hold.append_right rest)).cons _).trans (hnew.append_right rest).symm
  | none =>
    intro hc
    refine allocate_bind hc fun a d hu => hu.settleShare fun rest hall => ?_
    obtain ⟨others, hold, hset⟩ := (c.share plan device).insertFrame_holds thread
    rw [hframe] at hold
    have hnew := hset ⟨a, (max bytes (minFrameSlots * 8)).nextPowerOfTwo, []⟩
    exact ((hall.trans (hold.append_right rest)).cons _).trans (hnew.append_right rest).symm

theorem launch_keeps (key : String) (range : Device.Range) (args : List Argument) :
    Along (KeepsBalance info) (launch plan device thread key range args) := by
  refine claim_keeps.bind fun share => ?_
  split
  · exact .throw _
  · refine deviceInfo_keeps.bind fun about => ?_
    split
    · exact .throw _
    · refine (frameFor_keeps _).bind fun address => bracketed_keeps fun list => ?_
      exact (record_idle list _).bind fun _ => (record_idle list _).bind fun _ =>
        Operate.launch_idle list _ _ _ _

theorem flush_keeps : Along (KeepsBalance info) (flush plan device thread) := by
  refine queue_keeps.bind fun list => (onDevice_idle (Operate.flush_idle list)).bind fun _ =>
    Along.get fun c => ?_
  cases hframe : (c.share plan device).frames.get? thread with
  | none => exact Along.pure _ c
  | some frame =>
    intro hc
    obtain ⟨rest, hall, hset⟩ := c.setShare_holds plan device
    obtain ⟨others, hold, hinsert⟩ := (c.share plan device).insertFrame_holds thread
    rw [hframe] at hold
    have hfree : frame.retired.forM Operate.free =
        (frame.retired.map Resource.block).forM Operate.release := by
      simp [Operate.release]
    have hu := (hc.unsettled device).setShare plan
      { c.share plan device with
        frames := (c.share plan device).frames.insert thread { frame with retired := [] } }
    show Balanced info (after (do
      changeShare plan device fun s =>
        { s with frames := s.frames.insert thread { frame with retired := [] } }
      onDevice device (frame.retired.forM Operate.free)) c)
    rw [hfree]
    refine onDevice_settles (hu.perm ?_) fun d hd => ⟨(), releaseAll_takes hd⟩
    have hbefore : (c.holds device).Perm (.block frame.address ::
        (frame.retired.map Resource.block ++ (others ++ rest))) := by
      rw [← append_assoc]
      exact hall.trans (hold.append_right rest)
    have hafter := (hset _).trans ((hinsert { frame with retired := [] }).append_right rest)
    exact hbefore.trans (perm_middle.symm.trans (hafter.symm.append_left _))

/-! ## Clean-up -/

theorem cleanupQueue_keeps : Along (KeepsBalance info) (cleanupQueue plan device thread) := by
  refine deviceInfo_keeps.bind fun _ => Along.get fun c => ?_
  split
  · intro hc
    have hkeyed := keyed_plan hc.keyed plan
    unfold ThreadQueues.cleanup
    cases hlist : (c.queues plan).get? device thread with
    | none =>
      obtain ⟨rest, hall, hset⟩ := c.setQueues_holds plan device
      have hu := (hc.unsettled device).setQueues plan (fun _ _ => rfl) hkeyed
      have hidle : Idle (pure false) := Along.pure false
      exact onDevice_idle hidle _ (hu.settle (hall.trans (hset _).symm))
    | some =>
      obtain ⟨rest, hall, hset⟩ := c.setQueues_holds plan device
      have hother : ∀ i, i ≠ device → ((c.queues plan).erase device thread).onDevice i =
          (c.queues plan).onDevice i := by
        intro i hi
        rw [ThreadQueues.onDevice_erase hkeyed, if_neg (Ne.symm hi)]
      have hu := (hc.unsettled device).setQueues plan hother (ThreadQueues.erase_keyed hkeyed _ _)
      have hback := hu.perm (hall.trans (((ThreadQueues.holds_erase hkeyed hlist).append_right
        rest).trans ((hset _).symm.cons _)))
      refine onDevice_settles hback fun d hd => ?_
      obtain ⟨d', hrun, hd'⟩ := release_takes hd
      exact ⟨true, d', bind_of_ok hrun, hd'⟩
  · exact Along.pure _ c

/-- A share that gives a part of what it held back. -/
theorem giveBack (hc : Balanced info c) (hlt : device < c.devices.size) {s : Share}
    {back : List Resource} (hback : (c.share plan device).holds.Perm (back ++ s.holds)) :
    ∃ d, onDevice device (back.forM Operate.release) (c.setShare plan device s) =
        .ok () ((c.setShare plan device s).setDevice device d) ∧
      Balanced info ((c.setShare plan device s).setDevice device d) := by
  obtain ⟨rest, hall, hset⟩ := c.setShare_holds plan device
  have hout : (c.holds device).Perm (back ++ (c.setShare plan device s).holds device) := by
    refine (hall.trans (hback.append_right rest)).trans ?_
    rw [append_assoc]
    exact (hset s).symm.append_left back
  have hu := ((hc.unsettled device).setShare plan s).perm hout
  obtain ⟨d, hd⟩ : ∃ d, c.devices[device]? = some d := ⟨_, Array.getElem?_eq_getElem hlt⟩
  obtain ⟨d', hrun, hd'⟩ := releaseAll_takes (hu.givesOut hd)
  refine ⟨d', ?_, (hu.setDevice hd').settle (.refl _)⟩
  rw [onDevice_of_some (c := c.setShare plan device s) hd, hrun]

/-- What a step leaves of a context when it takes things from a plan on a device: the
other shares of the plan and the other plans stay. -/
structure Sheds (plan device : Nat) (c c' : Context) : Prop where
  others : ∀ i, i ≠ device → c'.share plan i = c.share plan i
  plans : c'.plans.erase plan = c.plans.erase plan
  size : c'.devices.size = c.devices.size

theorem Sheds.trans {c'' : Context} (a : Sheds plan device c c') (b : Sheds plan device c' c'') :
    Sheds plan device c c'' where
  others i hi := (b.others i hi).trans (a.others i hi)
  plans := b.plans.trans a.plans
  size := b.size.trans a.size

theorem sheds_setShare (c : Context) (plan device : Nat) (s : Share) (d : Simulator) :
    Sheds plan device c ((c.setShare plan device s).setDevice device d) where
  others i hi := (c.share_setShare plan device plan i s).trans (if_neg fun h => hi h.2.symm)
  plans := c.plans.erase_insert plan _
  size := Array.size_setIfInBounds

theorem share_given (c : Context) (plan device : Nat) (s : Share) (d : Simulator) :
    ((c.setShare plan device s).setDevice device d).share plan device = s :=
  (c.share_setShare plan device plan device s).trans (if_pos ⟨rfl, rfl⟩)

/-- Frames are given back one after another. -/
theorem dropFrames_balanced {l : List (Nat × Frame)} (hc : Balanced info c)
    (hlt : device < c.devices.size) (hl : (c.share plan device).frames.entries = l) :
    ∃ c', l.forM (fun entry => dropFrame plan device entry.1 entry.2) c = .ok () c' ∧
      Balanced info c' ∧ Sheds plan device c c' ∧
      c'.share plan device = { c.share plan device with frames := ∅ } := by
  induction l generalizing c with
  | nil =>
    refine ⟨c, rfl, hc, ⟨fun _ _ => rfl, rfl, rfl⟩, ?_⟩
    show c.share plan device = { c.share plan device with frames := ⟨[]⟩ }
    rw [← hl]
  | cons entry l ih =>
    obtain ⟨thread, frame⟩ := entry
    have herase : ((c.share plan device).frames.erase thread).entries = l := by
      unfold Table.erase
      rw [hl]
      simp [Table.drop]
    have hback : (c.share plan device).holds.Perm (frame.holds ++
        { c.share plan device with frames :=
          (c.share plan device).frames.erase thread }.holds) := by
      unfold Share.holds Table.values
      rw [herase, hl, map_cons, flatMap_cons, append_assoc]
      exact perm_append_comm_assoc _ _ _
    obtain ⟨d, hrun, hc₁⟩ := giveBack hc hlt hback
    have hsheds := sheds_setShare c plan device
      { c.share plan device with frames := (c.share plan device).frames.erase thread } d
    have hshare := share_given c plan device
      { c.share plan device with frames := (c.share plan device).frames.erase thread } d
    obtain ⟨c', hrest, hc', hsheds', hshare'⟩ := ih hc₁ (hsheds.size ▸ hlt) (by rw [hshare, herase])
    refine ⟨c', ?_, hc', hsheds.trans hsheds', by rw [hshare', hshare]⟩
    have hfree : (do Operate.free frame.address; frame.retired.forM Operate.free) =
        frame.holds.forM Operate.release := by
      unfold Frame.holds
      simp only [forM_eq_forM, forM_cons, forM_map]
      rfl
    rw [← hfree] at hrun
    have hfirst : dropFrame plan device thread frame c = _ := hrun
    exact (bind_of_ok hfirst).trans hrest

/-- What a plan holds on a device can be given back. -/
theorem dispose_balanced (plan : Nat) (hc : Balanced info c) (hlt : device < c.devices.size) :
    ∃ c', dispose plan device c = .ok () c' ∧ Balanced info c' ∧ Sheds plan device c c' ∧
      (c'.share plan device).holds = [] := by
  -- the kernels
  have hkernels : (c.share plan device).holds.Perm ((c.share plan device).kernels.holds ++
      { c.share plan device with events := c.newShare.events, kernels := {} }.holds) :=
    List.Perm.refl _
  obtain ⟨d₁, hrun₁, hc₁⟩ := giveBack hc hlt hkernels
  have hsheds₁ := sheds_setShare c plan device
    { c.share plan device with events := c.newShare.events, kernels := {} } d₁
  have hshare₁ := share_given c plan device
    { c.share plan device with events := c.newShare.events, kernels := {} } d₁
  -- the frames
  obtain ⟨c₂, hrun₂, hc₂, hsheds₂, hshare₂⟩ := dropFrames_balanced hc₁ (hsheds₁.size ▸ hlt)
    (l := (c.share plan device).frames.entries) (by rw [hshare₁])
  rw [hshare₁] at hshare₂
  -- the buffers
  have hbuffers : (c₂.share plan device).holds.Perm
      ((c.share plan device).buffers.map (.block ·.address) ++
        { c₂.share plan device with buffers := [] }.holds) := by
    rw [hshare₂]
    exact List.Perm.of_eq (append_nil _).symm
  obtain ⟨d₃, hrun₃, hc₃⟩ := giveBack hc₂ ((hsheds₁.trans hsheds₂).size ▸ hlt) hbuffers
  refine ⟨_, ?_, hc₃, (hsheds₁.trans hsheds₂).trans (sheds_setShare c₂ plan device _ d₃), ?_⟩
  · have hrelease : (c.share plan device).kernels.release =
        (c.share plan device).kernels.holds.forM Operate.release := by
      unfold KernelCache.release KernelCache.holds
      simp only [forM_eq_forM, forM_map]
      rfl
    have hfree : ((c.share plan device).buffers.forM fun b => Operate.free b.address) =
        ((c.share plan device).buffers.map (Resource.block ·.address)).forM Operate.release := by
      simp only [forM_eq_forM, forM_map]
      rfl
    rw [← hrelease] at hrun₁
    rw [← hfree] at hrun₃
    exact (bind_of_ok hrun₁).trans ((bind_of_ok hrun₂).trans hrun₃)
  · rw [share_given, hshare₂]
    rfl

theorem cleanupDevice_eq (q : ThreadQueues) (device : Nat) :
    (q.cleanupDevice device).1 = (q.holds device).forM Operate.release := by
  unfold ThreadQueues.cleanupDevice ThreadQueues.holds
  simp only [forM_eq_forM, forM_map]
  rfl

/-- Actions on all devices, one after another. -/
theorem forM_onDevice {act : Nat → Operate Unit} {R : Nat → Simulator → Simulator → Prop}
    (hact : ∀ i d, c.devices[i]? = some d → ∃ d', act i d = .ok () d' ∧ R i d d') :
    ∃ devices, (List.range c.devices.size).forM (fun i => onDevice i (act i)) c =
        .ok () { c with devices } ∧
      devices.size = c.devices.size ∧
      ∀ i d, c.devices[i]? = some d → ∃ d', devices[i]? = some d' ∧ R i d d' := by
  -- after some devices, the others are as before
  have hsome : ∀ n ≤ c.devices.size, ∃ devices,
      (List.range n).forM (fun i => onDevice i (act i)) c = .ok () { c with devices } ∧
      devices.size = c.devices.size ∧ ∀ i d, c.devices[i]? = some d →
        ∃ d', devices[i]? = some d' ∧ (i < n → R i d d') ∧ (n ≤ i → d' = d) := by
    intro n hn
    induction n with
    | zero => exact ⟨c.devices, rfl, rfl, fun i d hd => ⟨d, hd, nofun, fun _ => rfl⟩⟩
    | succ n ih =>
      obtain ⟨devices, hrun, hsize, hdevices⟩ := ih (Nat.le_of_succ_le hn)
      have hd := Array.getElem?_eq_getElem hn
      obtain ⟨_, hd₁, -, hsame⟩ := hdevices n _ hd
      cases hsame (Nat.le_refl n)
      obtain ⟨d', hok, hd'⟩ := hact n _ hd
      refine ⟨devices.setIfInBounds n d', ?_, Array.size_setIfInBounds.trans hsize,
        fun i e he => ?_⟩
      · rw [range_succ, forM_eq_forM, forM_append]
        exact (bind_of_ok hrun).trans (bind_of_ok (onDevice_ok (c := { c with devices }) hd₁ hok))
      · obtain ⟨e', he', hdone, hstill⟩ := hdevices i e he
        rw [Array.getElem?_setIfInBounds]
        by_cases hi : n = i
        · subst hi
          cases hd.symm.trans he
          rw [if_pos rfl, if_pos (hsize ▸ hn)]
          exact ⟨d', rfl, fun _ => hd', fun hle => absurd hle (Nat.not_succ_le_self n)⟩
        · rw [if_neg hi]
          exact ⟨e', he', fun hlt => hdone (by omega), fun hle => hstill (by omega)⟩
  obtain ⟨devices, hrun, hsize, hdevices⟩ := hsome _ (Nat.le_refl _)
  refine ⟨devices, hrun, hsize, fun i d hd => ?_⟩
  obtain ⟨d', hd', hdone, -⟩ := hdevices i d hd
  exact ⟨d', hd', hdone (Array.getElem?_eq_some_iff.1 hd).1⟩

/-- Devices are cleared one after another. -/
theorem disposeAll_balanced (plan : Nat) {l : List Nat} (hl : l.Nodup) (hc : Balanced info c)
    (hbound : ∀ i ∈ l, i < c.devices.size) :
    ∃ c', l.forM (dispose plan) c = .ok () c' ∧ Balanced info c' ∧
      c'.plans.erase plan = c.plans.erase plan ∧ c'.devices.size = c.devices.size ∧
      (∀ i ∈ l, (c'.share plan i).holds = []) ∧ ∀ i, i ∉ l → c'.share plan i = c.share plan i := by
  induction l generalizing c with
  | nil => exact ⟨c, rfl, hc, rfl, rfl, nofun, fun _ _ => rfl⟩
  | cons device l ih =>
    obtain ⟨hnew, hl⟩ := nodup_cons.1 hl
    obtain ⟨c₁, hrun, hc₁, hsheds, hnone⟩ := dispose_balanced plan hc (hbound device mem_cons_self)
    obtain ⟨c', hrest, hc', hplans, hsize, hin, hout⟩ := ih hl hc₁
      fun i hi => hsheds.size ▸ hbound i (mem_cons_of_mem _ hi)
    refine ⟨c', ?_, hc', hplans.trans hsheds.plans, hsize.trans hsheds.size, fun i hi => ?_,
      fun i hi => ?_⟩
    · exact (bind_of_ok hrun).trans hrest
    · rcases mem_cons.1 hi with rfl | hi
      · rw [hout i hnew]
        exact hnone
      · exact hin i hi
    · rw [hout i fun h => hi (mem_cons_of_mem _ h)]
      exact hsheds.others i fun h => hi (h ▸ mem_cons_self)

/-- Everything a plan holds can be given back, and the plan is forgotten. -/
theorem reset_balanced (plan : Nat) (hc : Balanced info c) :
    ∃ c', reset plan c = .ok () c' ∧ Balanced info c' ∧ c'.plans = c.plans.erase plan := by
  obtain ⟨c₁, hfirst, hc₁, hplans, hsize, hnone, -⟩ := disposeAll_balanced plan
    nodup_range hc fun i hi => mem_range.1 hi
  have hheld : ∀ i, (c₁.holds i).Perm
      ((c₁.queues plan).holds i ++ (c₁.setQueues plan {}).holds i) := by
    intro i
    obtain ⟨rest, hall, hset⟩ := c₁.setQueues_holds plan i
    exact hall.trans ((hset {}).symm.append_left _)
  obtain ⟨devices, hsecond, hsize', hdevices⟩ := forM_onDevice (c := c₁.setQueues plan {})
    fun i d hd => releaseAll_takes ((hc₁.devices i d hd).perm (hheld i))
  simp only [← cleanupDevice_eq] at hsecond
  rw [show (c₁.setQueues plan {}).devices.size = c.devices.size from hsize] at hsecond hsize'
  have hkeyed : ∀ p ∈ (c₁.setQueues plan {}).plans.values, p.queues.byDevice.Keyed :=
    keyed_setPlan hc₁.keyed nodup_nil
  refine ⟨{ c₁.setQueues plan {} with
    devices
    plans := (c₁.setQueues plan {}).plans.erase plan
    inUse := c₁.inUse.filter (· != plan)
    resetPlans := plan :: c₁.resetPlans.filter (· != plan) }, ?_, ⟨fun i d hd => ?_, ?_⟩, ?_⟩
  rotate_left
  · -- the forgotten plan held nothing any more
    have hlt : i < c.devices.size := hsize' ▸ (Array.getElem?_eq_some_iff.1 hd).1
    have hempty : ((c₁.setQueues plan {}).plan plan).holds i = [] := by
      unfold Plan.holds
      rw [← Context.share_holds, Context.share_setQueues, hnone i (mem_range.2 hlt)]
      show ThreadQueues.holds ((c₁.setQueues plan {}).queues plan) i = []
      rw [Context.queues_setQueues, if_pos rfl]
      rfl
    have herased := (c₁.setQueues plan {}).erasePlan_holds plan i
    rw [hempty] at herased
    obtain ⟨_, hd', hgives⟩ := hdevices i _ (Array.getElem?_eq_getElem (hsize.symm ▸ hlt))
    cases hd.symm.trans hd'
    exact hgives.perm herased
  · intro p hp
    exact hkeyed p (((Table.drop_sublist plan _).map Prod.snd).subset hp)
  · show (c₁.plans.insert plan _).erase plan = _
    rw [Table.erase_insert]
    exact hplans
  · refine (bind_of_ok hfirst).trans ?_
    exact bind_of_ok hsecond

theorem reset_keeps : Along (KeepsBalance info) (reset plan) := by
  intro c hc
  obtain ⟨c', hrun, hc', -⟩ := reset_balanced plan hc
  rw [after_of_ok hrun]
  exact hc'

end Control

/-! ## Histories -/

theorem Step.keeps (x : Step) : Along (KeepsBalance info) x.run := by
  cases x with
  | claim => exact Control.claim_keeps.discard
  | queue => exact Control.queue_keeps.discard
  | stage => exact (Control.stage_keeps _ _ _).discard
  | retain => exact Control.retain_keeps _
  | release => exact Control.release_keeps _
  | barrier => exact (Control.barrier_keeps _).discard
  | installFrom => exact (Control.installFrom_keeps _ _ _ _).discard
  | allocate => exact (Control.allocate_keeps _).discard
  | free => exact Control.free_keeps _
  | enqueueWrite => exact (Control.enqueueWrite_keeps _ _ _).discard
  | enqueueRead => exact (Control.enqueueRead_keeps _ _ _).discard
  | takeBytes => exact (Control.takeBytes_keeps _).discard
  | launch => exact (Control.launch_keeps _ _ _).discard
  | flush => exact Control.flush_keeps
  | cleanupQueue => exact Control.cleanupQueue_keeps.discard
  | reset => exact Control.reset_keeps

/-- One operation, successful or not, keeps the balance. -/
theorem Operation.perform_keeps (op : Operation) : Along (KeepsBalance info) op.perform := fun _ =>
  perform_invariant fun x _ c => x.keeps c

namespace Context

/-- What is left after operations, each of them successful or not. -/
def history (c : Context) (ops : List Operation) : Context :=
  ops.foldl (fun c op => after op.perform c) c

/-- Plans that hold nothing on devices that have given nothing out. -/
structure Fresh (info : Nat → Info) (c : Context) : Prop where
  plans : c.plans = ∅
  devices : ∀ (i : Nat) (d : Simulator), c.devices[i]? = some d →
    ∃ readings, d = { Simulator.new (info i) with readings }

theorem fresh_default : ({} : Context).Fresh fun _ => {} := by
  refine ⟨rfl, fun i d hd => ⟨[], ?_⟩⟩
  cases i with
  | zero => exact (Option.some.inj hd).symm
  | succ => cases hd

theorem Fresh.balanced (h : c.Fresh info) : Balanced info c where
  devices i d hd := by
    obtain ⟨readings, rfl⟩ := h.devices i d hd
    rw [holds, h.plans]
    exact Simulator.givesOut_new (info i) readings
  keyed p hp := by
    rw [h.plans] at hp
    cases hp

variable {ops : List Operation}

/-- What every operation keeps, a history keeps. -/
theorem history_invariant {P : Context → Prop}
    (h : ∀ op ∈ ops, ∀ c, P c → P (after op.perform c)) (hc : P c) : P (c.history ops) := by
  induction ops generalizing c with
  | nil => exact hc
  | cons op ops ih =>
    obtain ⟨hop, hops⟩ := forall_mem_cons.1 h
    exact ih hops (hop c hc)

theorem history_balanced (hc : Balanced info c) : Balanced info (c.history ops) :=
  history_invariant (fun op _ => op.perform_keeps) hc

/-- **history_accounted**: after every history of calls, those that failed or stopped the device
included, the blocks, kernels and command lists that are out
on a device are those its plans hold, each held once; and everything a plan holds can be given
back. -/
theorem history_accounted (info : Nat → Info) (c : Context) (ops : List Operation)
    (hfresh : c.Fresh info) :
    (∀ (i : Nat) (d : Simulator), (c.history ops).devices[i]? = some d →
      d.resources.Perm ((c.history ops).holds i) ∧ ((c.history ops).holds i).Nodup) ∧
    ∀ plan, ∃ c', Control.reset plan (c.history ops) = .ok () c' := by
  have hb : Balanced info (c.history ops) := history_balanced hfresh.balanced
  refine ⟨fun i d hd => ?_, fun plan => ?_⟩
  · have hout := hb.devices i d hd
    exact ⟨hout.resources, hout.nodup⟩
  · obtain ⟨c', hrun, -⟩ := Control.reset_balanced plan hb
    exact ⟨c', hrun⟩

/-- Two plans, a buffer freed by the wrong one, a queue and a reset. -/
def sampleHistory : List Operation :=
  [.allocate 0 0 10, .allocate 1 0 8, .free 1 ⟨0, Device.heapBase, 10⟩, .queue 1 0 3,
    .free 0 ⟨0, Device.heapBase, 10⟩, .reset 0]

theorem history_accounted_sample :
    (({} : Context).history sampleHistory).holds 0 = [.block (Device.heapBase + 64), .list 1] ∧
    (({} : Context).history sampleHistory).devices.size = 1 ∧
    (∀ (i : Nat) (d : Simulator), (({} : Context).history sampleHistory).devices[i]? = some d →
      d.resources.Perm ((({} : Context).history sampleHistory).holds i) ∧
        ((({} : Context).history sampleHistory).holds i).Nodup) := by
  refine ⟨by decide +kernel, by decide +kernel, ?_⟩
  exact (history_accounted (fun _ => {}) {} sampleHistory fresh_default).1

end Context

end KernelForge.Host
