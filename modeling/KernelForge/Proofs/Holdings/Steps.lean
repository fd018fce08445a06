import KernelForge.Proofs.Holdings.Plans

/-!
# Operations on plans and their steps

Operations on plans are made of steps. What every step of an operation keeps, the operation keeps
(`Operation.perform_keepsOf`), whether it succeeds or fails in the middle.
-/

namespace KernelForge

section Failure

variable {ε σ α β : Type} {x : EStateM ε σ α} {f : α → EStateM ε σ β} {s s' : σ}

def failure (x : EStateM ε σ α) (s : σ) : Option ε :=
  match x s with
  | .ok _ _ => none
  | .error e _ => some e

theorem failure_of_ok {a : α} (h : x s = .ok a s') : failure x s = none := by
  rw [failure, h]

theorem failure_of_error {e : ε} (h : x s = .error e s') : failure x s = some e := by
  rw [failure, h]

theorem ok_of_failure (h : failure x s = none) : ∃ a, x s = .ok a (after x s) := by
  cases hx : x s with
  | ok a => exact ⟨a, by rw [after_of_ok hx]⟩
  | error =>
    rw [failure_of_error hx] at h
    cases h

theorem failure_bind_of_ok {a : α} (h : x s = .ok a s') :
    failure (x >>= f) s = failure (f a) s' := by
  rw [failure, failure, bind_of_ok h]

theorem failure_bind_of_error {e : ε} (h : x s = .error e s') : failure (x >>= f) s = some e := by
  rw [failure, bind_of_error h]

end Failure

namespace Host

variable {c : Context}

/-! ## Operations -/

inductive Operation where
  | queue (plan device thread : Nat)
  | barrier (plan device thread : Nat) (d : Descriptor)
  | retain (plan device index : Nat)
  | release (plan device index : Nat)
  | install (plan device : Nat) (id entry : String) (binary : List UInt8)
  | installFile (plan device : Nat) (id entry file : String)
  | installModule (plan device : Nat) (id : String) (m : Codegen.Binary)
  | allocate (plan device size : Nat)
  | upload (plan device thread size : Nat) (bytes : List UInt8)
  | free (plan : Nat) (buffer : Buffer)
  | enqueueWrite (plan thread : Nat) (buffer : Buffer) (offset : Nat) (data : List UInt8)
  | enqueueRead (plan thread : Nat) (buffer : Buffer) (offset length : Nat)
  | takeBytes (r : PendingRead)
  | write (plan thread : Nat) (buffer : Buffer) (offset : Nat) (data : List UInt8)
  | read (plan thread : Nat) (buffer : Buffer) (offset length : Nat)
  | launch (plan device thread : Nat) (key : String) (range : Device.Range) (args : List Argument)
  | flush (plan device thread : Nat)
  | wait (plan device thread : Nat) (events : List Nat)
  | cleanupQueue (plan device thread : Nat)
  | reset (plan : Nat)

namespace Operation

/-- Perform an operation, whatever its result. -/
def perform : Operation → Control Unit
  | .queue plan device thread => do let _ ← Control.queue plan device thread
  | .barrier plan device thread d => do let _ ← Control.barrier plan device thread d
  | .retain plan device index => Control.retain plan device index
  | .release plan device index => Control.release plan device index
  | .install plan device id entry binary => do let _ ← Control.install plan device id entry binary
  | .installFile plan device id entry file => do
    let _ ← Control.installFile plan device id entry file
  | .installModule plan device id m => do let _ ← Control.installModule plan device id m
  | .allocate plan device size => do let _ ← Control.allocate plan device size
  | .upload plan device thread size bytes => do
    let _ ← Control.upload plan device thread size fun _ => bytes
  | .free plan buffer => Control.free plan buffer
  | .enqueueWrite plan thread buffer offset data => do
    let _ ← Control.enqueueWrite plan thread buffer offset data
  | .enqueueRead plan thread buffer offset length => do
    let _ ← Control.enqueueRead plan thread buffer offset length
  | .takeBytes r => do let _ ← Control.takeBytes r
  | .write plan thread buffer offset data => do
    let _ ← Control.write plan thread buffer offset data
  | .read plan thread buffer offset length => do
    let _ ← Control.read plan thread buffer offset length
  | .launch plan device thread key range args => do
    let _ ← Control.launch plan device thread key range args
  | .flush plan device thread => Control.flush plan device thread
  | .wait plan device thread events => Control.wait plan device thread events
  | .cleanupQueue plan device thread => do let _ ← Control.cleanupQueue plan device thread
  | .reset plan => Control.reset plan

end Operation

/-! ## Steps -/

/-- Steps that operations on plans are made of. -/
inductive Step where
  | claim (plan device : Nat)
  | queue (plan device thread : Nat)
  | stage (id entry : String) (binary : List UInt8)
  | retain (plan device index : Nat)
  | release (plan device index : Nat)
  | barrier (plan device thread : Nat) (desc : Descriptor)
  | installFrom (plan device : Nat) (id entry : String) (binary : List UInt8)
    (source : Option Source)
  | allocate (plan device size : Nat)
  | free (plan : Nat) (buffer : Buffer)
  | enqueueWrite (plan thread : Nat) (buffer : Buffer) (offset : Nat) (data : List UInt8)
  | enqueueRead (plan thread : Nat) (buffer : Buffer) (offset length : Nat)
  | takeBytes (r : PendingRead)
  | launch (plan device thread : Nat) (key : String) (range : Device.Range) (args : List Argument)
  | flush (plan device thread : Nat)
  | cleanupQueue (plan device thread : Nat)
  | reset (plan : Nat)

namespace Step

/-- Take a step, whatever its result. -/
def run : Step → Control Unit
  | .claim plan device => do let _ ← Control.claim plan device
  | .queue plan device thread => do let _ ← Control.queue plan device thread
  | .stage id entry binary => do let _ ← Control.stage id entry binary
  | .retain plan device index => Control.retain plan device index
  | .release plan device index => Control.release plan device index
  | .barrier plan device thread desc => do let _ ← Control.barrier plan device thread desc
  | .installFrom plan device id entry binary source => do
    let _ ← Control.installFrom plan device id entry binary source
  | .allocate plan device size => do let _ ← Control.allocate plan device size
  | .free plan buffer => Control.free plan buffer
  | .enqueueWrite plan thread buffer offset data => do
    let _ ← Control.enqueueWrite plan thread buffer offset data
  | .enqueueRead plan thread buffer offset length => do
    let _ ← Control.enqueueRead plan thread buffer offset length
  | .takeBytes r => do let _ ← Control.takeBytes r
  | .launch plan device thread key range args => do
    let _ ← Control.launch plan device thread key range args
  | .flush plan device thread => Control.flush plan device thread
  | .cleanupQueue plan device thread => do let _ ← Control.cleanupQueue plan device thread
  | .reset plan => Control.reset plan

section Discard

variable {α : Type} {x : Control α} {c' : Context}

theorem after_discard (x : Control α) (c : Context) : after (do let _ ← x) c = after x c := by
  simp only [after, bind, EStateM.bind]
  cases x c with
  | ok | error => rfl

theorem failure_discard (x : Control α) (c : Context) : failure (do let _ ← x) c = failure x c := by
  simp only [failure, bind, EStateM.bind]
  cases x c with
  | ok | error => rfl

end Discard

end Step

/-- Actions that lead from `P` to `P` when they succeed and to `E` when they fail. -/
def KeepsOf {α : Type} (P E : Context → Prop) (x : Control α) : Prop :=
  ∀ c, P c → (failure x c = none → P (after x c)) ∧ (failure x c ≠ none → E (after x c))

namespace KeepsOf

variable {α β : Type} {P E : Context → Prop} {x : Control α} {f : α → Control β}

theorem ofOk (h : KeepsOf P E x) {a : α} {c' : Context} (hc : P c) (hx : x c = .ok a c') : P c' :=
  after_of_ok hx ▸ (h c hc).1 (failure_of_ok hx)

theorem ofError (h : KeepsOf P E x) {e : Error} {c' : Context} (hc : P c) (hx : x c = .error e c') :
    E c' := by
  have he := (h c hc).2
  rw [failure_of_error hx, after_of_error hx] at he
  exact he nofun

/-- An invariant that failures keep too. -/
theorem invariant (h : KeepsOf P P x) (hc : P c) : P (after x c) := by
  by_cases hfail : failure x c = none
  · exact (h c hc).1 hfail
  · exact (h c hc).2 hfail

theorem pure (a : α) : KeepsOf P E (Pure.pure a : Control α) := fun _ hc =>
  ⟨fun _ => hc, fun hne => absurd rfl hne⟩

theorem throw (hE : ∀ c, P c → E c) (e : Error) : KeepsOf P E (MonadExcept.throw e : Control α) :=
  fun c hc => ⟨nofun, fun _ => hE c hc⟩

theorem get {f : Context → Control β} (hf : ∀ c, KeepsOf P E (f c)) :
    KeepsOf P E (MonadState.get >>= f) := fun c hc => hf c c hc

/-- What is done with a result may depend on where the result came from. -/
theorem bind (hx : KeepsOf P E x) (hf : ∀ a, (∃ c c', x c = .ok a c') → KeepsOf P E (f a)) :
    KeepsOf P E (x >>= f) := by
  intro c hc
  cases h : x c with
  | error =>
    rw [failure_bind_of_error h, after_bind_of_error h]
    exact ⟨nofun, fun _ => hx.ofError hc h⟩
  | ok a c' =>
    rw [failure_bind_of_ok h, after_bind_of_ok h]
    exact hf a ⟨c, c', h⟩ c' (hx.ofOk hc h)

/-- Actions that look only. -/
theorem ofStill (hE : ∀ c, P c → E c) (h : ∀ c, after x c = c) : KeepsOf P E x := by
  intro c hc
  rw [h]
  exact ⟨fun _ => hc, fun _ => hE c hc⟩

theorem ofDiscard (h : KeepsOf P E (do let _ ← x)) : KeepsOf P E x := by
  intro c hc
  have hd := h c hc
  rwa [Step.after_discard, Step.failure_discard] at hd

theorem discard (h : KeepsOf P E x) : KeepsOf P E (do let _ ← x) := h.bind fun _ _ => pure _

theorem mapM {l : List α} (h : ∀ a ∈ l, KeepsOf P E (f a)) : KeepsOf P E (l.mapM f) := by
  induction l with
  | nil => exact pure _
  | cons a l ih =>
    rw [List.mapM_cons]
    refine (h a List.mem_cons_self).bind fun b _ => ?_
    exact (ih fun a ha => h a (List.mem_cons_of_mem _ ha)).bind fun bs _ => pure _

end KeepsOf

namespace Operation

/-- The steps an operation can be made of. -/
def Uses : Operation → Step → Prop
  | .queue plan device thread, x => x = .queue plan device thread
  | .barrier plan device thread d, x => x = .barrier plan device thread d
  | .retain plan device index, x => x = .retain plan device index
  | .release plan device index, x => x = .release plan device index
  | .install plan device id entry binary, x =>
    x = .claim plan device ∨ x = .stage id entry binary ∨
      ∃ source, x = .installFrom plan device id entry binary source
  | .installFile plan device id entry _, x =>
    x = .claim plan device ∨ ∃ binary source, x = .installFrom plan device id entry binary source
  | .installModule plan device id m, x =>
    x = .claim plan device ∨ (∃ entry, x = .stage id entry m.bytes) ∨
      ∃ entry source, x = .installFrom plan device id entry m.bytes source
  | .allocate plan device size, x => x = .allocate plan device size
  | .upload plan device thread size bytes, x =>
    x = .allocate plan device size ∨
      (∃ a, x = .enqueueWrite plan thread ⟨device, a, size⟩ 0 bytes) ∨
      x = .flush plan device thread
  | .free plan buffer, x => x = .free plan buffer
  | .enqueueWrite plan thread buffer offset data, x =>
    x = .enqueueWrite plan thread buffer offset data
  | .enqueueRead plan thread buffer offset length, x =>
    x = .enqueueRead plan thread buffer offset length
  | .takeBytes r, x => x = .takeBytes r
  | .write plan thread buffer offset data, x =>
    x = .enqueueWrite plan thread buffer offset data ∨ x = .flush plan buffer.device thread
  | .read plan thread buffer offset length, x =>
    x = .enqueueRead plan thread buffer offset length ∨ x = .flush plan buffer.device thread ∨
      ∃ r, x = .takeBytes r
  | .launch plan device thread key range args, x => x = .launch plan device thread key range args
  | .flush plan device thread, x => x = .flush plan device thread
  | .wait plan device thread _, x => x = .flush plan device thread
  | .cleanupQueue plan device thread, x => x = .cleanupQueue plan device thread
  | .reset plan, x => x = .reset plan

section Parts

variable {P E : Context → Prop} {plan device thread : Nat}

theorem install_keepsOf (hE : ∀ c, P c → E c) {id entry : String} {binary : List UInt8}
    (hclaim : KeepsOf P E (Step.claim plan device).run)
    (hstage : KeepsOf P E (Step.stage id entry binary).run)
    (hinstall : ∀ source, KeepsOf P E (Step.installFrom plan device id entry binary source).run) :
    KeepsOf P E (Control.install plan device id entry binary) := by
  have hrest : KeepsOf P E (do
      let source ← Control.stage id entry binary
      Control.installFrom plan device id entry binary source) :=
    hstage.ofDiscard.bind fun source _ => (hinstall source).ofDiscard
  refine hclaim.ofDiscard.bind fun _ _ => ?_
  split
  · exact (KeepsOf.throw hE _).bind fun _ _ => hrest
  · exact hrest

theorem write_keepsOf {buffer : Buffer} {offset : Nat} {data : List UInt8}
    (hwrite : KeepsOf P E (Step.enqueueWrite plan thread buffer offset data).run)
    (hflush : KeepsOf P E (Step.flush plan buffer.device thread).run) :
    KeepsOf P E (Control.write plan thread buffer offset data) :=
  hwrite.ofDiscard.bind fun _ _ => .bind hflush fun _ _ => .pure _

theorem allocate_buffer {size : Nat} {buffer : Buffer} {c' : Context}
    (h : Control.allocate plan device size c = .ok buffer c') :
    ∃ a, buffer = ⟨device, a, size⟩ := by
  obtain ⟨a, c₁, -, h⟩ := bind_ok.1 h
  obtain ⟨_, c₂, -, h⟩ := bind_ok.1 h
  obtain ⟨_, c₃, -, h⟩ := bind_ok.1 h
  obtain ⟨rfl, -⟩ := pure_ok.1 h
  exact ⟨a, rfl⟩

theorem timers_still (index : Nat) (c : Context) :
    after (Control.timers plan device index) c = c := by
  show after (EStateM.bind (ofExcept ((c.share plan device).events.event index)) _) c = c
  cases (c.share plan device).events.event index with
  | ok | error => rfl

theorem anyPending_keepsOf (hE : ∀ c, P c → E c) (events : List Nat) :
    KeepsOf P E (Control.anyPending plan device events) := by
  induction events with
  | nil => exact .pure _
  | cons index rest ih =>
    refine (KeepsOf.ofStill hE (timers_still index)).bind fun t _ => ?_
    split
    · exact ih
    · exact .pure _

end Parts

/-- What the steps of an operation keep, the operation keeps. -/
theorem perform_keepsOf {P E : Context → Prop} {op : Operation} (hE : ∀ c, P c → E c)
    (h : ∀ x, op.Uses x → KeepsOf P E x.run) : KeepsOf P E op.perform := by
  cases op with
  | install =>
    exact (install_keepsOf hE (h _ (.inl rfl)) (h _ (.inr (.inl rfl))) fun source =>
      h _ (.inr (.inr ⟨source, rfl⟩))).discard
  | installFile plan device id entry file =>
    refine .discard ((h _ (.inl rfl)).ofDiscard.bind fun _ _ => .get fun c => ?_)
    split
    · exact .throw hE _
    · next binary _ =>
      have hinstall : KeepsOf P E
          (Control.installFrom plan device id entry binary (some (.file file))) :=
        (h _ (.inr ⟨binary, some (.file file), rfl⟩)).ofDiscard
      split
      · exact (KeepsOf.throw hE _).bind fun _ _ => hinstall
      · exact hinstall
  | installModule plan device =>
    have hclaim : KeepsOf P E (Step.claim plan device).run := h _ (.inl rfl)
    refine .discard (hclaim.ofDiscard.bind fun _ _ => .mapM fun entry _ => ?_)
    exact install_keepsOf hE hclaim (h _ (.inr (.inl ⟨entry, rfl⟩))) fun source =>
      h _ (.inr (.inr ⟨entry, source, rfl⟩))
  | upload =>
    refine .discard ((h _ (.inl rfl)).ofDiscard.bind fun buffer hbuffer => ?_)
    obtain ⟨c, c', hrun⟩ := hbuffer
    obtain ⟨a, rfl⟩ := allocate_buffer hrun
    exact (write_keepsOf (h _ (.inr (.inl ⟨a, rfl⟩))) (h _ (.inr (.inr rfl)))).bind fun _ _ =>
      .pure _
  | write =>
    exact (write_keepsOf (h _ (.inl rfl)) (h _ (.inr rfl))).discard
  | read =>
    refine .discard ((h _ (.inl rfl)).ofDiscard.bind fun r _ => ?_)
    exact (h _ (.inr (.inl rfl))).bind fun _ _ => (h _ (.inr (.inr ⟨r, rfl⟩))).ofDiscard
  | wait plan device thread events =>
    refine (anyPending_keepsOf hE events).bind fun pending _ => ?_
    split
    · exact h _ rfl
    · exact .pure _
  | _ => exact h _ rfl

/-- What every step keeps, an operation keeps. -/
theorem perform_invariant {P : Context → Prop} {op : Operation}
    (h : ∀ x, op.Uses x → ∀ c, P c → P (after x.run c)) (hc : P c) : P (after op.perform c) := by
  have hkeeps : KeepsOf P P op.perform := perform_keepsOf (fun _ hc => hc) fun x hx c hc =>
    ⟨fun _ => h x hx c hc, fun _ => h x hx c hc⟩
  exact hkeeps.invariant hc

end Operation

end Host

end KernelForge
