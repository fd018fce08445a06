import KernelForge.Proofs.Queues.Transfers

/-!
# Transfers of one thread are sequential

Over a whole history of transfers, the buffers hold what the accepted copies have put into them, in
the order of the calls (`Transferring.history`). So a read gives back what was copied before it,
wherever the flushes stand; and neither does it depend on the flushes which copies are accepted
(`accepted_unflushed`): the same calls without any flush are admitted in the same way.

Other threads and other plans are outside; what they can do to a plan is told in `Queues.Frames` and
`Queues.Reset`.
-/

namespace KernelForge.Host.Context

open List hiding get
open Device (Info Heap heapBase)
open Control (takeBytes)
open Control (enqueueRead flush takeBytes)

variable {info : Nat → Info} {plan device thread : Nat} {K K' : Buffer → List UInt8}
  {c c' : Context} {op : Operation} {length offset : Nat}

/-! ## Histories -/

theorem spliceAll_append (bytes : List UInt8) (copies copies' : List (Nat × List UInt8)) :
    spliceAll bytes (copies ++ copies') = spliceAll (spliceAll bytes copies) copies' :=
  foldl_append

variable {ops : List Operation}

/-- Transfers one after another: what the buffers hold is what they held before, with the copies
that were accepted. -/
theorem Transferring.history (h : Transferring info plan device thread K c)
    (hops : Transfers plan device thread c ops) :
    Transferring info plan device thread (fun b => spliceAll (K b) (c.accepted b ops))
        (c.history ops) ∧
      Onward plan device thread c (c.history ops) := by
  induction ops generalizing c K with
  | nil => exact ⟨h, fun r bytes hr => hr⟩
  | cons op ops ih =>
    obtain ⟨hop, hops⟩ := hops
    have houtcome := h.perform_outcome hop
    obtain ⟨hnext, honward, -, -⟩ := houtcome.after
    obtain ⟨hlast, honward'⟩ := ih hnext hops
    refine ⟨?_, fun r bytes hr => honward' r bytes (honward r bytes hr)⟩
    have hK : (fun b => spliceAll (K b) (accepted b c (op :: ops))) = fun b =>
        spliceAll
          ((if failure op.perform c = none then fun b => spliceAll (K b) (op.writes b) else K)
          b) (accepted b (after op.perform c) ops) := by
      funext b
      show spliceAll (K b) ((if failure op.perform c = none then op.writes b else []) ++ _) = _
      rw [spliceAll_append]
      split <;> rfl
    rw [hK]
    exact hlast

theorem transfers_append {ops' : List Operation} :
    Transfers plan device thread c (ops ++ ops') ↔
      Transfers plan device thread c ops ∧ Transfers plan device thread (c.history ops) ops' := by
  induction ops generalizing c with
  | nil => exact ⟨fun h => ⟨trivial, h⟩, fun h => h.2⟩
  | cons op ops ih =>
    show _ ∧ Transfers plan device thread (after op.perform c) (ops ++ ops') ↔ _
    rw [ih, ← and_assoc]
    rfl

theorem Fresh.transferring (h : c.Fresh info) (hdevice : device < c.devices.size) :
    Transferring info plan device thread (fun b => List.replicate b.size 0) c := by
  have hd := Array.getElem?_eq_getElem hdevice
  obtain ⟨readings, hnew⟩ := h.devices device _ hd
  have hheap : c.scene.heap device = Heap.empty (info device).globalMemory := by
    rw [(scene_shows hd).heap, hnew]
    rfl
  have hpending : c.scene.pending plan device thread = [] := h.pending plan device thread
  have hbuffers : (c.scene.share plan device).buffers = [] := by
    show (c.share plan device).buffers = []
    rw [h.share]
    rfl
  refine ⟨h.own, hdevice, ⟨?_, ?_, ?_, ?_, ?_, ?_, fun _ _ => rfl⟩⟩
  · rw [hheap]
    exact Nat.two_pow_pos 63
  · show (c.share plan device).frames.get? thread = none
    rw [h.share]
    rfl
  · rw [hpending]
    exact nofun
  · rw [hbuffers]
    exact nofun
  · rw [hbuffers]
    exact .nil
  · rw [hbuffers]
    exact nofun

/-! ## Flushes elsewhere -/

/-- An operation without its flush is none, or one that is accepted in the same way. -/
theorem unflushed_cases {buffers : List Buffer}
    (hop : op.Transfers plan device thread buffers) :
    (op.unflushed = [] ∧ (∀ k : Admission, k.accept op = some k) ∧ ∀ b, op.writes b = []) ∨
    ∃ op' : Operation, op.unflushed = [op'] ∧ (∀ k : Admission, k.accept op' = k.accept op) ∧
      (∀ b, op'.writes b = op.writes b) ∧ op'.Transfers plan device thread buffers := by
  cases op with
  | flush => exact .inl ⟨rfl, fun _ => rfl, fun _ => rfl⟩
  | write | read | allocate | enqueueWrite | enqueueRead | barrier =>
    exact .inr ⟨_, rfl, fun _ => rfl, fun _ => rfl, hop⟩
  | _ => exact absurd hop id

/-- Without any flush, the same copies are accepted. -/
theorem accepted_unflushed (h : Transferring info plan device thread K c)
    (h' : Transferring info plan device thread K' c')
    (hsame : c.scene.admission plan device = c'.scene.admission plan device)
    (hops : Transfers plan device thread c ops) (b : Buffer) :
    c'.accepted b (ops.flatMap Operation.unflushed) = c.accepted b ops := by
  induction ops generalizing c c' K K' with
  | nil => rfl
  | cons op ops ih =>
    obtain ⟨hop, hops⟩ := hops
    obtain ⟨hnext, -, haccepted, hadmission⟩ := (h.perform_outcome hop).after
    rw [flatMap_cons]
    show _ = (if failure op.perform c = none then op.writes b else []) ++ _
    rcases unflushed_cases hop with ⟨hnone, haccept, hwrites⟩ | ⟨op', hone, haccept, hwrites, hop'⟩
    · have hstay : (after op.perform c).scene.admission plan device =
          c'.scene.admission plan device := by
        rw [hadmission, haccept, ← hsame]
        rfl
      rw [hnone, hwrites, ite_self]
      exact ih hnext h' hstay hops
    · have hbuffers : (c.share plan device).buffers = (c'.share plan device).buffers :=
        congrArg Admission.buffers hsame
      obtain ⟨hnext', -, haccepted', hadmission'⟩ :=
        (h'.perform_outcome (hbuffers ▸ hop')).after
      rw [haccept, ← hsame] at haccepted' hadmission'
      rw [hone]
      show (if failure op'.perform c' = none then op'.writes b else []) ++
        accepted b (after op'.perform c') (ops.flatMap Operation.unflushed) = _
      rw [hwrites, ih hnext hnext' (hadmission.trans hadmission'.symm) hops]
      simp only [haccepted, haccepted']

/-- A read that was recorded gives what its buffer held then, once it is flushed. -/
theorem Transferring.delivers (h : Transferring info plan device thread K c) {b : Buffer}
    (hb : b ∈ (c.share plan device).buffers) {r : PendingRead}
    (hread : enqueueRead plan thread b offset length c = .ok r c')
    (hops : Transfers plan device thread c' ops) :
    (∀ bytes c'', takeBytes r (c'.history ops) = .ok bytes c'' →
      bytes = ((K b).drop offset).take length) ∧
    ∃ c₁ c₂, flush plan device thread (c'.history ops) = .ok () c₁ ∧
      takeBytes r c₁ = .ok (((K b).drop offset).take length) c₂ := by
  obtain ⟨houtcome, hasked⟩ := h.enqueueRead_outcome hb offset length
  obtain ⟨-, hdelivers⟩ := hasked r c' hread
  rw [hread] at houtcome
  cases houtcome with
  | accepted hnext =>
    obtain ⟨hlast, honward'⟩ := hnext.history hops
    have hnow := honward' r _ hdelivers
    obtain ⟨c₁, hflush, hnext₁, hemptied⟩ := hlast.flush_next
    refine ⟨fun bytes c'' htake => ?_, ?_⟩
    · rcases takeBytes_run hlast.own hnow with ⟨-, e, herr⟩ | ⟨c₂, hok, -⟩
      · cases herr.symm.trans htake
      · cases hok.symm.trans htake
        rfl
    · rcases takeBytes_run hnext₁.own (hnow.emptied hemptied) with ⟨htime, -⟩ | ⟨c₂, hok, -⟩
      · exact absurd htime (hnow.emptied_time hemptied)
      · exact ⟨c₁, c₂, hflush, hok⟩

/-- **transfers_sequential**: whatever a thread transfers, no flush fails; a call that is refused
changes neither memory nor what is recorded; a read gives what the copies accepted before it have
put into its buffer, at once or when its bytes are taken after a flush; and which copies are
accepted does not depend on the flushes. -/
theorem transfers_sequential (info : Nat → Info) (c : Context) (hc : c.Fresh info)
    (plan device thread : Nat) (hdevice : device < c.devices.size) (ops : List Operation)
    (hops : Transfers plan device thread c ops) :
    (∃ c', flush plan device thread (c.history ops) = .ok () c') ∧
    (∀ op e, op.Transfers plan device thread ((c.history ops).share plan device).buffers →
      failure op.perform (c.history ops) = some e →
      op.Refused (c.history ops) plan device e ∧
        (c.history (ops ++ [op])).scene.heap device = (c.history ops).scene.heap device ∧
        (c.history (ops ++ [op])).pending plan device thread =
          (c.history ops).pending plan device thread) ∧
    (∀ b ∈ ((c.history ops).share plan device).buffers, ∀ offset length bytes c',
      Control.read plan thread b offset length (c.history ops) = .ok bytes c' →
      bytes = ((c.written b ops).drop offset).take length) ∧
    (∀ before b offset length rest r c',
      ops = before ++ .enqueueRead plan thread b offset length :: rest →
      enqueueRead plan thread b offset length (c.history before) = .ok r c' →
      (∀ bytes c'', takeBytes r (c.history ops) = .ok bytes c'' →
        bytes = ((c.written b before).drop offset).take length) ∧
      ∃ c₁ c₂, flush plan device thread (c.history ops) = .ok () c₁ ∧
        takeBytes r c₁ = .ok (((c.written b before).drop offset).take length) c₂) ∧
    ∀ b, c.written b (ops.flatMap Operation.unflushed) = c.written b ops := by
  have hstart : Transferring info plan device thread (fun b => List.replicate b.size 0) c :=
    hc.transferring hdevice
  obtain ⟨hlast, -⟩ := hstart.history hops
  refine ⟨?_, ?_, ?_, ?_, ?_⟩
  · obtain ⟨c', hflush, -⟩ := hlast.flush_next
    exact ⟨c', hflush⟩
  · intro op e hop he
    rw [history_append]
    exact (hlast.perform_outcome hop).refusal he
  · intro b hb offset length bytes c' hread
    exact (hlast.read_outcome hb offset length).2 bytes c' hread
  · intro before b offset length rest r c' hsplit hread
    subst hsplit
    obtain ⟨hbefore, ⟨-, -, hb⟩, hrest⟩ := transfers_append.1 hops
    obtain ⟨hthen, -⟩ := hstart.history hbefore
    have hnext :
      after (Operation.enqueueRead plan thread b offset length).perform (c.history before) =
        c' := (Step.after_discard _ _).trans (after_of_ok hread)
    rw [hnext] at hrest
    have hhistory : c.history (before ++ .enqueueRead plan thread b offset length :: rest) =
        c'.history rest := by
      rw [history_append, ← hnext]
      rfl
    rw [hhistory]
    exact hthen.delivers hb hread hrest
  · intro b
    unfold written
    rw [accepted_unflushed hstart hstart rfl hops b]

/-- Copies that overlap, a buffer taken between them, a read between them, and a flush before the
last of them. -/
def overlappingCopies : List Operation :=
  [.allocate 0 0 8, .enqueueWrite 0 3 ⟨0, heapBase, 8⟩ 2 [1, 2, 3], .allocate 0 0 4,
    .enqueueRead 0 3 ⟨0, heapBase, 8⟩ 1 4, .flush 0 0 3,
    .enqueueWrite 0 3 ⟨0, heapBase, 8⟩ 3 [7, 8]]

theorem transfers_sequential_overlapping :
    ({} : Context).written ⟨0, Device.heapBase, 8⟩ overlappingCopies = [0, 0, 1, 7, 8, 0, 0, 0] ∧
    (∃ c', Control.read 0 3 ⟨0, Device.heapBase, 8⟩ 2 3 (({} : Context).history overlappingCopies) =
      .ok [1, 7, 8] c') ∧
    ∃ r c' c₁ c₂, enqueueRead 0 3 ⟨0, Device.heapBase, 8⟩ 1 4
        (({} : Context).history (overlappingCopies.take 3)) = .ok r c' ∧
      flush 0 0 3 (({} : Context).history overlappingCopies) = .ok () c₁ ∧
      takeBytes r c₁ = .ok [0, 1, 2, 3] c₂ := by
  have hwritten : ({} : Context).written ⟨0, Device.heapBase, 8⟩ overlappingCopies =
      [0, 0, 1, 7, 8, 0, 0, 0] := by
    decide +kernel
  have hbefore : ({} : Context).written ⟨0, Device.heapBase, 8⟩ (overlappingCopies.take 3) =
      [0, 0, 1, 2, 3, 0, 0, 0] := by
    decide +kernel
  have hops : Transfers 0 0 3 {} overlappingCopies :=
    ⟨⟨rfl, rfl⟩, ⟨rfl, rfl, by decide +kernel⟩, ⟨rfl, rfl⟩, ⟨rfl, rfl, by decide +kernel⟩,
      ⟨rfl, rfl, rfl⟩, ⟨rfl, rfl, by decide +kernel⟩, trivial⟩
  obtain ⟨-, -, hread, hasked, -⟩ := transfers_sequential (fun _ => {}) {} fresh_default 0 0 3
    (by decide) overlappingCopies hops
  refine ⟨hwritten, ?_, ?_⟩
  · obtain ⟨bytes, hok⟩ : ∃ bytes, Control.read 0 3 ⟨0, Device.heapBase, 8⟩ 2 3
        (({} : Context).history overlappingCopies) = .ok bytes _ :=
          ok_of_failure (by decide +kernel)
    have hbytes := hread _ (by decide +kernel) 2 3 bytes _ hok
    rw [hwritten] at hbytes
    exact ⟨_, hbytes ▸ hok⟩
  · obtain ⟨r, hok⟩ : ∃ r, enqueueRead 0 3 ⟨0, Device.heapBase, 8⟩ 1 4
        (({} : Context).history (overlappingCopies.take 3)) = .ok r _ :=
      ok_of_failure (by decide +kernel)
    obtain ⟨-, c₁, c₂, hflush, htake⟩ :=
      hasked (overlappingCopies.take 3) ⟨0, Device.heapBase, 8⟩ 1 4
      (overlappingCopies.drop 4) r _ rfl hok
    rw [hbefore] at htake
    exact ⟨r, _, c₁, c₂, hok, hflush, htake⟩

end KernelForge.Host.Context
