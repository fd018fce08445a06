import KernelForge.Proofs.Queues.Effects

/-!
# Recorded launches name installed kernels

A launch is recorded with the handle its kernel has in the cache of its plan. The kernels of all
caches are installed, so the launch can run for as long as the cache keeps the kernel. A cache gives
a kernel up when another is installed under its key. That leaves what was recorded, and is the only
way in which a flush can meet a kernel that is not installed.
-/

namespace KernelForge.Device

open List hiding get

variable {d d' : Simulator} {cs : List Command} {name : KernelName}

namespace Operate

theorem runKernel_failure {kernel base frame : Nat} {range : Range} {e : Error}
    (h : failure (runKernel kernel range base frame) d = some e) :
    (∃ fault, e = .execution fault) ∨
      e = .unknownKernel (.handle kernel) ∧ d.kernels.get? kernel = none := by
  have hget : (get : Operate Simulator) d = .ok d d := rfl
  unfold runKernel at h
  rw [failure_bind_of_ok hget] at h
  cases hk : d.kernels.get? kernel with
  | none =>
    rw [hk] at h
    cases h
    exact .inr ⟨rfl, rfl⟩
  | some k =>
    rw [hk] at h
    rw [failure_bind_of_ok hget] at h
    generalize k.program.launch k.entry range base frame d.heap = r at h
    obtain ⟨heap, fault⟩ := r
    cases fault with
    | none => cases h
    | some fault =>
      cases h
      exact .inl ⟨fault, rfl⟩

/-- A command fails with a fault, or is the launch of a kernel that is not
installed. -/
theorem execute_failure {x : Command} {e : Error} (h : execute x d = .error e d') :
    (∃ fault, e = .execution fault) ∨
    ∃ kernel range base frame, x = .launch kernel range base frame ∧
      e = .unknownKernel (.handle kernel) ∧ d.kernels.get? kernel = none := by
  cases x with
  | write address data =>
    have hrun : onHeap (fun h => (h.write address data).map ((), ·)) d = .error e d' := h
    rw [onHeap_run] at hrun
    split at hrun
    · cases hrun
      exact .inl ⟨_, rfl⟩
    · cases hrun
  | read address length =>
    have hrun : EStateM.bind (onHeap fun h => (h.read address length).map (·, h)) _ d =
      .error e d' :=
      h
    rw [EStateM.bind, onHeap_run] at hrun
    cases hr : (d.heap.read address length).map (·, d.heap) with
    | error =>
      simp only [hr] at hrun
      cases hrun
      exact .inl ⟨_, rfl⟩
    | ok =>
      simp only [hr] at hrun
      cases hrun
  | launch kernel range base frame =>
    rcases runKernel_failure (failure_of_error h) with hfault | ⟨he, hnone⟩
    · exact .inl hfault
    · exact .inr ⟨kernel, range, base, frame, rfl, he, hnone⟩
  | stamp | barrier => cases h

/-- Commands whose run ends at a kernel that is not known have a launch of it. -/
theorem executeAll_unknownKernel (h : cs.forM execute d = .error (.unknownKernel name) d') :
    ∃ kernel range base frame, name = .handle kernel ∧ .launch kernel range base frame ∈ cs ∧
      d.kernels.get? kernel = none := by
  induction cs generalizing d with
  | nil => cases h
  | cons x cs ih =>
    have hbind : EStateM.bind (execute x) (fun _ => cs.forM execute) d =
      .error (.unknownKernel name) d' := h
    cases hx : execute x d with
    | ok u d₁ =>
      rw [EStateM.bind, hx] at hbind
      obtain ⟨kernel, range, base, frame, hname, hmem, hnone⟩ := ih hbind
      have hrunning : d.Running d₁ := after_of_ok hx ▸ execute_running x d
      exact ⟨kernel, range, base, frame, hname, mem_cons_of_mem _ hmem, hrunning.kernels ▸ hnone⟩
    | error =>
      rw [EStateM.bind, hx] at hbind
      cases hbind
      rcases execute_failure hx
        with ⟨fault, hfault⟩ | ⟨kernel, range, base, frame, rfl, hname, hnone⟩
      · cases hfault
      · cases hname
        exact ⟨kernel, range, base, frame, rfl, mem_cons_self, hnone⟩

end Operate

end KernelForge.Device

namespace KernelForge.Host

open List hiding get
open Device (Info Simulator Command Operate Kernel)

variable {info : Nat → Info} {c : Context} {plan device thread kernel : Nat} {cs : List Command}
  {name : KernelName}

def Quiet (cs : List Command) : Prop :=
  ∀ kernel range base frame, .launch kernel range base frame ∉ cs

namespace Scene

variable {s s' s'' : Scene} {r : Option Error} {kernels : Table Nat Kernel}

/-- A thread has recorded a launch of a kernel. -/
def Queued (s : Scene) (plan device thread kernel : Nat) : Prop :=
  ∃ range base frame, .launch kernel range base frame ∈ s.pending plan device thread

/-- A kernel is in the cache of a plan for a device. -/
def Cached (s : Scene) (plan device kernel : Nat) : Prop :=
  kernel ∈ (s.share plan device).kernels.handles

/-- A thread has recorded a launch of a kernel that is not in the cache of the plan. -/
def Missing (s : Scene) (plan device thread kernel : Nat) : Prop :=
  s.Queued plan device thread kernel ∧ ¬s.Cached plan device kernel

/-- The kernels of all caches are installed, and no two have one handle. -/
structure Backed (s : Scene) : Prop where
  installed : ∀ p i h, s.Cached p i h → s.Installed i h
  nodup : ∀ p i, (s.share p i).kernels.handles.Nodup
  apart : ∀ p p' i h, s.Cached p i h → s.Cached p' i h → p = p'

/-! ## Changes that leave kernels alone -/

structure SameKernels (s s' : Scene) : Prop where
  kernels : s'.kernels = s.kernels
  caches : ∀ p i, (s'.share p i).kernels = (s.share p i).kernels

theorem SameKernels.refl (s : Scene) : SameKernels s s := ⟨rfl, fun _ _ => rfl⟩

theorem SameKernels.trans (a : SameKernels s s') (b : SameKernels s' s'') : SameKernels s s'' :=
  ⟨b.kernels.trans a.kernels, fun p i => (b.caches p i).trans (a.caches p i)⟩

theorem SameKernels.cached (h : SameKernels s s') : s'.Cached plan device kernel ↔
    s.Cached plan device kernel := by
  unfold Cached
  rw [h.caches]

theorem SameKernels.backed (h : SameKernels s s') (hs : s.Backed) : s'.Backed where
  installed p i k hk := by
    unfold Installed
    rw [h.kernels]
    exact hs.installed p i k (h.cached.1 hk)
  nodup p i := h.caches p i ▸ hs.nodup p i
  apart p p' i k hk hk' := hs.apart p p' i k (h.cached.1 hk) (h.cached.1 hk')

theorem sameKernels_setShare {held : Share} (h : held.kernels = (s.share plan device).kernels) :
    SameKernels s (s.setShare plan device held) := by
  refine ⟨rfl, fun p i => ?_⟩
  show (if plan = p ∧ device = i then held else s.share p i).kernels = _
  split
  · next heq => rw [h, heq.1, heq.2]
  · rfl

theorem Framed.pending {bytes a : Nat} (h : Framed plan device thread bytes s a s') :
    s'.pending = s.pending := by
  cases h with
  | kept | grown | first => rfl

theorem Entered.sameKernels {desc : Descriptor} {index : Nat} {b : Brackets}
    {w : EventWindow Brackets} (h : Entered plan device thread desc cs index b w s s') :
    SameKernels s s' := by
  have hafter := h.after
  subst hafter
  refine .trans (sameKernels_setShare ?_) ⟨rfl, fun _ _ => rfl⟩
  rfl

theorem Framed.sameKernels {bytes a : Nat} (h : Framed plan device thread bytes s a s') :
    SameKernels s s' := by
  rcases h.shape with ⟨-, -, -, -, rfl⟩ | ⟨-, heap, -, -, -, -, rfl⟩
  · exact .refl s
  · have hheap : SameKernels s (s.setHeap device heap) := ⟨rfl, fun _ _ => rfl⟩
    exact hheap.trans (sameKernels_setShare rfl)

theorem Ran.sameKernels (h : Ran plan device thread s r s') : SameKernels s s' := by
  obtain ⟨d, hd, rfl⟩ := h.shape
  refine ⟨funext fun i => ?_, fun _ _ => rfl⟩
  show (if device = i then (after _ d).kernels else s.kernels i) = s.kernels i
  split
  · next heq => rw [(Operate.executeAll_running _ d).kernels, ← hd.kernels, heq]
  · rfl

theorem Flushed.sameKernels (h : Flushed plan device thread s r s') : SameKernels s s' := by
  cases h with
  | stopped hran | unframed hran => exact hran.sameKernels
  | freed hran =>
    refine hran.sameKernels.trans (.trans (sameKernels_setShare ?_) ⟨rfl, fun _ _ => rfl⟩)
    rfl

/-- A flush that meets a kernel that is not known has a launch of it in its list. -/
theorem Flushed.unknownKernel (h : Flushed plan device thread s (some (.unknownKernel name)) s') :
    ∃ kernel, name = .handle kernel ∧ s.Queued plan device thread kernel ∧
      ¬s.Installed device kernel := by
  cases h with
  | stopped hran =>
    cases hran with
    | stopped hd hcs hrun =>
      obtain ⟨kernel, range, base, frame, hname, hmem, hnone⟩ :=
        Operate.executeAll_unknownKernel hrun
      refine ⟨kernel, hname, ⟨range, base, frame, hmem⟩, fun hin => ?_⟩
      unfold Installed at hin
      rw [hd.kernels, hnone] at hin
      cases hin
  | freed hran hf hheap hr =>
    obtain ⟨a, ha⟩ := hr _ rfl
    cases ha

/-! ## Installing and giving back -/

/-- A kernel with a new handle takes the place of others of its plan. -/
theorem backed_installed {handle : Nat} {cache : KernelCache}
    {gone rest : List Nat} (hs : s.Backed) (hnew : ¬s.Installed device handle)
    (hbefore : (s.share plan device).kernels.handles.Perm (gone ++ rest))
    (hafter : cache.handles.Perm (handle :: rest))
    (hkept : ∀ h, h = handle ∨ s.Installed device h → h ∉ gone → (kernels.get? h).isSome) :
    ((s.setKernels device kernels).setShare plan device
      { s.share plan device with kernels := cache }).Backed := by
  have hold : ∀ h, h ∈ gone ∨ h ∈ rest → s.Cached plan device h := fun h hh =>
    hbefore.mem_iff.2 (mem_append.2 hh)
  obtain ⟨-, hrest, hdisjoint⟩ := nodup_append.1 (hbefore.nodup_iff.1 (hs.nodup plan device))
  have hcache : ∀ h, h ∈ cache.handles → h = handle ∨ h ∈ rest := fun h hh =>
    mem_cons.1 (hafter.mem_iff.1 hh)
  -- the cache of the plan on this device, and every other cache
  have hcached : ∀ p i h, ((s.setKernels device kernels).setShare plan device
      { s.share plan device with kernels := cache }).Cached p i h →
      (p = plan ∧ i = device) ∧ (h = handle ∨ h ∈ rest) ∨
        ¬(p = plan ∧ i = device) ∧ s.Cached p i h := by
    intro p i h hh
    have hh' : h ∈ (if plan = p ∧ device = i then { s.share plan device with kernels := cache }
      else s.share p i).kernels.handles := hh
    split at hh'
    · next heq => exact .inl ⟨⟨heq.1.symm, heq.2.symm⟩, hcache h hh'⟩
    · next hne => exact .inr ⟨fun heq => hne ⟨heq.1.symm, heq.2.symm⟩, hh'⟩
  refine ⟨fun p i h hh => ?_, fun p i => ?_, fun p p' i h hh hh' => ?_⟩
  · show ((if device = i then kernels else s.kernels i).get? h).isSome
    rcases hcached p i h hh with ⟨⟨rfl, rfl⟩, hin⟩ | ⟨hne, hin⟩
    · rw [if_pos rfl]
      rcases hin with rfl | hin
      · exact hkept h (.inl rfl) fun hgone => hnew (hs.installed p i h (hold h (.inl hgone)))
      · refine hkept h (.inr (hs.installed p i h (hold h (.inr hin)))) fun hgone => ?_
        exact hdisjoint h hgone h hin rfl
    · split
      · next heq =>
        subst heq
        refine hkept h (.inr (hs.installed p device h hin)) fun hgone => hne ⟨?_, rfl⟩
        exact hs.apart p plan device h hin (hold h (.inl hgone))
      · exact hs.installed p i h hin
  · show (if plan = p ∧ device = i then { s.share plan device with kernels := cache }
      else s.share p i).kernels.handles.Nodup
    split
    · refine hafter.nodup_iff.2 (nodup_cons.2 ⟨fun hin => ?_, hrest⟩)
      exact hnew (hs.installed plan device handle (hold handle (.inr hin)))
    · exact hs.nodup p i
  · rcases hcached p i h hh with ⟨⟨rfl, rfl⟩, hin⟩ | ⟨hne, hin⟩
    · rcases hcached p' i h hh' with ⟨⟨rfl, -⟩, -⟩ | ⟨hne', hin'⟩
      · rfl
      · rcases hin with rfl | hin
        · exact absurd (hs.installed p' i h hin') hnew
        · exact hs.apart p p' i h (hold h (.inr hin)) hin'
    · rcases hcached p' i h hh' with ⟨⟨rfl, rfl⟩, hin'⟩ | ⟨hne', hin'⟩
      · rcases hin' with rfl | hin'
        · exact absurd (hs.installed p i h hin) hnew
        · exact hs.apart p p' i h hin (hold h (.inr hin'))
      · exact hs.apart p p' i h hin hin'

/-- More kernels, none of them in a cache. -/
theorem backed_setKernels (hs : s.Backed)
    (hkept : ∀ h, s.Installed device h → (kernels.get? h).isSome) :
    (s.setKernels device kernels).Backed := by
  refine ⟨fun p i h hh => ?_, hs.nodup, hs.apart⟩
  show ((if device = i then kernels else s.kernels i).get? h).isSome
  split
  · next heq => exact hkept h (heq ▸ hs.installed p i h hh)
  · exact hs.installed p i h hh

/-- Caches that are as before or empty. -/
theorem Backed.shrink (hs : s.Backed)
    (hcaches : ∀ p i, (s'.share p i).kernels = (s.share p i).kernels ∨ (s'.share p i).kernels = {})
    (hinstalled : ∀ p i h, s'.Cached p i h → s.Cached p i h → s'.Installed i h) : s'.Backed := by
  have hcached : ∀ p i h, s'.Cached p i h → s.Cached p i h := by
    intro p i h hh
    unfold Cached at hh ⊢
    rcases hcaches p i with heq | heq
    · rwa [heq] at hh
    · rw [heq] at hh
      cases hh
  refine ⟨fun p i h hh => hinstalled p i h hh (hcached p i h hh), fun p i => ?_,
    fun p p' i h hh hh' => hs.apart p p' i h (hcached p i h hh) (hcached p' i h hh')⟩
  rcases hcaches p i with heq | heq
  · rw [heq]
    exact hs.nodup p i
  · rw [heq]
    exact nodup_nil

/-- The kernels a plan gives back are in no cache. -/
theorem Shed.backed (h : Shed plan s s') (hs : s.Backed) : s'.Backed := by
  refine hs.shrink (fun p i => ?_) fun p i k hk hold => ?_
  · by_cases hp : p = plan
    · subst hp
      rcases h.kernels i with ⟨-, heq⟩ | ⟨heq, -⟩
      · exact .inl heq
      · exact .inr heq
    · rw [h.others p i hp]
      exact .inl rfl
  · have hin := hs.installed p i k hold
    rcases h.kernels i with ⟨heq, -⟩ | ⟨hempty, hkept⟩
    · unfold Installed
      rwa [heq]
    · by_cases hp : p = plan
      · subst hp
        unfold Cached at hk
        rw [hempty] at hk
        cases hk
      · exact hkept k hin fun hgone => hp (hs.apart p plan i k hold hgone)

theorem Reset.backed (h : Reset plan s r s') (hs : s.Backed) : s'.Backed := by
  cases h with
  | stopped hshed => exact hshed.backed hs
  | @done s₁ held hshed hheld =>
    have hs₁ := hshed.backed hs
    refine hs₁.shrink (fun p i => ?_) fun p i k _ hold => hs₁.installed p i k hold
    show (if plan = p then held else s₁.share p i).kernels = _ ∨
      (if plan = p then held else s₁.share p i).kernels = _
    split
    · exact .inr hheld.kernels
    · exact .inl rfl

end Scene

/-! ## Steps -/

/-- Whether a step installs kernels or gives them back. -/
def Step.AltersKernels : Step → Prop
  | .installFrom _ _ _ _ _ _ => True
  | .reset _ => True
  | _ => False

namespace Effect

variable {x : Step} {r : Option Error} {s s' : Scene}

theorem sameKernels (h : Effect x r s s') (hx : ¬x.AltersKernels) : Scene.SameKernels s s' := by
  cases h with
  | idle => exact .refl s
  | retained | released =>
    refine Scene.sameKernels_setShare ?_
    rfl
  | barrier hentered | written hentered => exact hentered.sameKernels
  | installed | notInstalled | reset => exact absurd trivial hx
  | @allocated p i size a heap =>
    have hheap : Scene.SameKernels s (s.setHeap i heap) := ⟨rfl, fun _ _ => rfl⟩
    refine hheap.trans (Scene.sameKernels_setShare ?_)
    rfl
  | @freed =>
    refine Scene.SameKernels.trans (Scene.sameKernels_setShare ?_) ⟨rfl, fun _ _ => rfl⟩
    rfl
  | sunk | taken | closed => exact ⟨rfl, fun _ _ => rfl⟩
  | read hentered =>
    refine Scene.SameKernels.trans ?_ hentered.sameKernels
    exact ⟨rfl, fun _ _ => rfl⟩
  | framed hframed => exact hframed.sameKernels
  | launched hkernel hframed hentered => exact hframed.sameKernels.trans hentered.sameKernels
  | flushed hflushed => exact hflushed.sameKernels

/-- Every step, successful or not, leaves the kernels of all caches installed. -/
theorem backed (h : Effect x r s s') (hs : s.Backed) : s'.Backed := by
  by_cases hx : x.AltersKernels
  · cases h with
    | idle => exact hs
    | installed hnew hbefore hafter hkept =>
        exact Scene.backed_installed hs hnew hbefore hafter hkept
    | notInstalled hkept => exact Scene.backed_setKernels hs hkept
    | reset hreset => exact hreset.backed hs
    | _ => exact hx.elim
  · exact (h.sameKernels hx).backed hs

/-- All a step can do to what a thread has recorded: nothing, empty it, or put work
at its end, a launch only if it is one. -/
theorem pending_cases (h : Effect x r s s') (plan device thread : Nat) :
    s'.pending plan device thread = s.pending plan device thread ∨
    s'.pending plan device thread = [] ∨
    ∃ desc cs index b w s₁, Scene.Entered plan device thread desc cs index b w s₁ s' ∧
      s₁.pending = s.pending ∧ (Quiet cs ∨ ∃ key range args a k,
        x = .launch plan device thread key range args ∧ r = none ∧
        (s.share plan device).kernels.getKey? key = some k ∧
        Scene.Framed plan device thread (frameBytes args).length s a s₁ ∧
        cs = Control.launchCommands k.handle range a (frameBytes args)) := by
  -- work is recorded in the list of its thread only
  have hentered : ∀ {p i t index : Nat} {desc : Descriptor} {cs : List Command} {b : Brackets}
      {w : EventWindow Brackets} {s₁ : Scene}, Scene.Entered p i t desc cs index b w s₁ s' →
      s₁.pending = s.pending → (p = plan ∧ i = device ∧ t = thread) ∨
        s'.pending plan device thread = s.pending plan device thread := by
    intro p i t index desc cs b w s₁ he hbefore
    by_cases hhere : p = plan ∧ i = device ∧ t = thread
    · exact .inl hhere
    · rw [he.pending_if, if_neg hhere, hbefore]
      exact .inr rfl
  have hemptied : ∀ {P : Prop} [Decidable P],
      (s'.pending plan device thread = if P then [] else s.pending plan device thread) →
      s'.pending plan device thread = s.pending plan device thread ∨
        s'.pending plan device thread = [] := by
    intro P _ hif
    split at hif
    · exact .inr hif
    · exact .inl hif
  cases h with
  | barrier he | written he | read he =>
    rcases hentered he rfl with ⟨rfl, rfl, rfl⟩ | hsame
    · exact .inr (.inr ⟨_, _, _, _, _, _, he, rfl, .inl (by simp [Quiet])⟩)
    · exact .inl hsame
  | framed hframed => exact .inl (by rw [hframed.pending])
  | @launched p i t a index key range args k b w _ s₁ _ hkernel hframed he =>
    rcases hentered he hframed.pending with ⟨rfl, rfl, rfl⟩ | hsame
    · exact .inr (.inr ⟨_, _, index, b, w, s₁, he, hframed.pending,
        .inr ⟨key, range, args, a, k, rfl, rfl, hkernel, hframed, rfl⟩⟩)
    · exact .inl hsame
  | flushed hflushed => exact (hemptied (hflushed.pending_if plan device thread)).imp_right .inl
  | @closed p i t =>
    have hif : (s.setPending p i t []).pending plan device thread =
      if p = plan ∧ i = device ∧ t = thread then [] else s.pending plan device thread := rfl
    exact (hemptied hif).imp_right .inl
  | @reset p _ _ _ hreset =>
    cases hreset with
    | stopped hshed => exact .inl (by rw [hshed.pending])
    | @done s₁ held hshed =>
      have hif : (s₁.forget p held).pending plan device thread =
          if p = plan then [] else s.pending plan device thread := by
        rw [← hshed.pending]
        rfl
      exact (hemptied hif).imp_right .inl
  | _ => exact .inl rfl

/-- A launch is recorded with a kernel of the cache of its plan. -/
theorem queued (h : Effect x r s s') (hq : s'.Queued plan device thread kernel) :
    s.Queued plan device thread kernel ∨ s.Cached plan device kernel := by
  obtain ⟨range, base, frame, hmem⟩ := hq
  rcases h.pending_cases plan device thread with hsame | hempty |
    ⟨desc, cs, index, b, w, s₁, he, hbefore, hcs⟩
  · exact .inl ⟨range, base, frame, hsame ▸ hmem⟩
  · rw [hempty] at hmem
    cases hmem
  · rw [he.pending_eq, hbefore] at hmem
    rcases mem_append.1 hmem with hold | hnew
    · exact .inl ⟨range, base, frame, hold⟩
    · have hnew' : .launch kernel range base frame ∈ cs := by simpa using hnew
      rcases hcs with hquiet | ⟨key, range', args, a, k, -, -, hkernel, -, rfl⟩
      · exact absurd hnew' (hquiet kernel range base frame)
      · have hk : kernel = k.handle := by
          simp only [Control.launchCommands, mem_cons, not_mem_nil, or_false, reduceCtorEq,
            false_or, Command.launch.injEq] at hnew'
          exact hnew'.1
        exact .inr (mem_map.2 ⟨k, mem_map.2 ⟨_, Table.mem_entries_of_get? hkernel, rfl⟩, hk.symm⟩)

/-- Where resets do not fail, a kernel whose launch is recorded leaves the cache of its plan by an
install only. -/
theorem missing (h : Effect x r s s') (hreset : ∀ p, x = .reset p → r = none)
    (hbefore : ¬s.Missing plan device thread kernel)
    (hafter : s'.Missing plan device thread kernel) :
    ∃ id entry binary source, x = .installFrom plan device id entry binary source := by
  obtain ⟨hqueued, hout⟩ := hafter
  have hcached : s.Cached plan device kernel := by
    rcases h.queued hqueued with hold | hcached
    · exact Classical.byContradiction fun hnot => hbefore ⟨hold, hnot⟩
    · exact hcached
  by_cases hx : x.AltersKernels
  · cases h with
    | idle | notInstalled => exact absurd hcached hout
    | @installed p i _ id entry binary source _ kernels cache =>
      by_cases hhere : p = plan ∧ i = device
      · obtain ⟨rfl, rfl⟩ := hhere
        exact ⟨id, entry, binary, source, rfl⟩
      · refine absurd ?_ hout
        show kernel ∈ (if p = plan ∧ i = device then { s.share p i with kernels := cache }
          else s.share plan device).kernels.handles
        rw [if_neg hhere]
        exact hcached
    | @reset p _ _ _ hrun =>
      cases hrun with
      | stopped => cases hreset p rfl
      | @done s₁ held hshed =>
        -- a plan that is forgotten has nothing recorded
        by_cases hp : p = plan
        · obtain ⟨range, base, frame, hmem⟩ := hqueued
          have hmem' : .launch kernel range base frame ∈
            if p = plan then ([] : List Command) else s₁.pending plan device thread := hmem
          rw [if_pos hp] at hmem'
          cases hmem'
        · refine absurd ?_ hout
          show kernel ∈ (if p = plan then held else s₁.share plan device).kernels.handles
          rw [if_neg hp, hshed.others plan device fun heq => hp heq.symm]
          exact hcached
    | _ => exact hx.elim
  · exact absurd ((h.sameKernels hx).cached.2 hcached) hout

end Effect

/-! ## Operations -/

namespace Operation

variable {op : Operation}

def Installs (plan device : Nat) : Operation → Prop
  | .install p i _ _ _ => p = plan ∧ i = device
  | .installFile p i _ _ _ => p = plan ∧ i = device
  | .installModule p i _ _ => p = plan ∧ i = device
  | _ => False

/-- An operation takes a kernel from the cache of a plan, of which a thread has recorded
a launch: it installs another in its place. -/
def Discards (op : Operation) (plan device thread kernel : Nat) (c : Context) : Prop :=
  op.Installs plan device ∧ c.scene.Queued plan device thread kernel ∧
    c.scene.Cached plan device kernel ∧
    ¬(after op.perform c).scene.Cached plan device kernel

theorem uses_installFrom {id entry : String} {binary : List UInt8} {source : Option Source}
    (h : op.Uses (.installFrom plan device id entry binary source)) : op.Installs plan device := by
  cases op with
  | install | installFile | installModule => simp_all [Uses, Installs]
  | _ => simp [Uses] at h

/-- An install leaves what was recorded. -/
theorem Installs.pending (hop : op.Installs plan device) (hc : OwnLists info c) :
    (after op.perform c).scene.pending = c.scene.pending := by
  have heffect : ∀ {x r s s'}, op.Uses x → Effect x r s s' → s'.pending = s.pending := by
    intro x r s s' hx heffect
    cases heffect with
    | barrier | written | read | framed | launched | flushed | closed | reset =>
      -- not a step of an install
      cases op with
      | install | installFile | installModule => simp [Uses] at hx
      | _ => exact hop.elim
    | _ => rfl
  exact perform_scene (Q := fun s => s.pending = c.scene.pending)
    (fun _ _ _ _ hx hdid hs => (heffect hx hdid).trans hs) hc rfl

/-- One operation that leaves a launch without its kernel discards it. -/
theorem perform_discards (op : Operation) (hc : OwnLists info c) (hb : Balanced info c)
    (hbefore : ¬c.scene.Missing plan device thread kernel)
    (hafter : (after op.perform c).scene.Missing plan device thread kernel) :
    op.Discards plan device thread kernel c := by
  have hop : op.Installs plan device := by
    refine Classical.byContradiction fun hop => ?_
    refine (perform_invariant (P := fun c => OwnLists info c ∧ Balanced info c ∧
      ¬c.scene.Missing plan device thread kernel) (fun x hx c hc => ?_) ⟨hc, hb, hbefore⟩).2.2
        hafter
    obtain ⟨hown, hb, hnot⟩ := hc
    obtain ⟨hown', heffect⟩ := x.effect c hown
    refine ⟨hown', x.keeps c hb, fun hmissing => ?_⟩
    have hreset : ∀ p, x = .reset p → failure x.run c = none := by
      rintro p rfl
      obtain ⟨c', hrun, -⟩ := Control.reset_balanced p hb
      exact failure_of_ok (x := (Step.reset p).run) hrun
    obtain ⟨_, _, _, _, rfl⟩ := heffect.missing hreset hnot hmissing
    exact hop (uses_installFrom hx)
  have hqueued : c.scene.Queued plan device thread kernel := by
    have hq := hafter.1
    unfold Scene.Queued at hq ⊢
    rwa [hop.pending hc] at hq
  exact ⟨hop, hqueued, Classical.byContradiction fun hnot => hbefore ⟨hqueued, hnot⟩, hafter.2⟩

end Operation

/-! ## Histories -/

namespace Context

theorem Fresh.handles (h : c.Fresh info) (plan device : Nat) :
    (c.scene.share plan device).kernels.handles = [] := by
  show (c.share plan device).kernels.handles = []
  rw [h.share]
  rfl

theorem Fresh.backed (h : c.Fresh info) : c.scene.Backed := by
  have hnot : ∀ p i k, ¬c.scene.Cached p i k := by
    intro p i k hk
    unfold Scene.Cached at hk
    rw [h.handles] at hk
    cases hk
  refine ⟨fun p i k hk => absurd hk (hnot p i k), fun p i => ?_, fun p p' i k hk _ =>
    absurd hk (hnot p i k)⟩
  rw [h.handles]
  exact nodup_nil

theorem Fresh.not_missing (h : c.Fresh info) : ¬c.scene.Missing plan device thread kernel := by
  rintro ⟨⟨range, base, frame, hmem⟩, -⟩
  have hmem' : .launch kernel range base frame ∈ c.pending plan device thread := hmem
  rw [h.pending] at hmem'
  cases hmem'

/-- A launch without its kernel was left so by an operation that discarded the kernel. -/
theorem history_discards (hc : OwnLists info c) (hb : Balanced info c)
    (hstart : ¬c.scene.Missing plan device thread kernel) {ops : List Operation}
    (h : (c.history ops).scene.Missing plan device thread kernel) :
    ∃ before op rest, ops = before ++ op :: rest ∧
      op.Discards plan device thread kernel (c.history before) := by
  obtain ⟨before, op, rest, rfl, hkept, hnow⟩ :=
    history_first (Q := fun c => c.scene.Missing plan device thread kernel) hstart h
  exact ⟨before, op, rest, rfl, op.perform_discards (history_own hc before)
    (history_balanced hb) hkept hnow⟩

/-- **queued_launches_installed**: after every history, the kernel of each launch in a command list
is installed, unless an operation discarded it while the launch was recorded; and only in that case
does a flush meet a kernel that is not installed. -/
theorem queued_launches_installed (info : Nat → Info) (c : Context) (hc : c.Fresh info)
    (ops : List Operation) :
    (∀ (i : Nat) (d : Simulator), (c.history ops).devices[i]? = some d →
      ∀ list cs, d.lists.get? list = some cs →
      ∀ kernel range base frame, .launch kernel range base frame ∈ cs →
        (d.kernels.get? kernel).isSome ∨ ∃ plan thread before op rest, ops = before ++ op :: rest ∧
          op.Discards plan i thread kernel (c.history before)) ∧
    ∀ plan device thread name,
      failure (Control.flush plan device thread) (c.history ops) = some (.unknownKernel name) →
      ∃ kernel, name = .handle kernel ∧ ∃ before op rest, ops = before ++ op :: rest ∧
        op.Discards plan device thread kernel (c.history before) := by
  have hown := history_own hc.own ops
  have hbacked : (c.history ops).scene.Backed :=
    history_scene (fun _ _ _ _ heffect hs => heffect.backed hs) hc.own hc.backed ops
  refine ⟨fun i d hd list cs hlist kernel range base frame hmem => ?_,
    fun plan device thread name hfail => ?_⟩
  · obtain ⟨plan, thread, hqueue⟩ := hown.owned i d list cs hd hlist
    have hqueued : (c.history ops).scene.Queued plan i thread kernel := by
      refine ⟨range, base, frame, ?_⟩
      show _ ∈ (c.history ops).pending plan i thread
      rwa [pending_eq hqueue hd hlist]
    by_cases hcached : (c.history ops).scene.Cached plan i kernel
    · have hinstalled := hbacked.installed plan i kernel hcached
      unfold Scene.Installed at hinstalled
      rw [(scene_shows hd).kernels] at hinstalled
      exact .inl hinstalled
    · exact .inr ⟨plan, thread,
        history_discards hc.own hc.balanced hc.not_missing ⟨hqueued, hcached⟩⟩
  · cases hd : (c.history ops).devices[device]? with
    | none =>
      have hflush : Control.flush plan device thread (c.history ops) =
          .error (.unknownDevice device) (c.history ops) :=
        bind_of_error (Step.queue_of_none hd)
      rw [failure_of_error hflush] at hfail
      cases hfail
    | some =>
      have hflushed := (Control.flush_run hown hd plan thread).2
      rw [hfail] at hflushed
      obtain ⟨kernel, rfl, hqueued, hout⟩ := hflushed.unknownKernel
      have hcached : ¬(c.history ops).scene.Cached plan device kernel := fun hin =>
        hout (hbacked.installed plan device kernel hin)
      exact ⟨kernel, rfl, history_discards hc.own hc.balanced hc.not_missing ⟨hqueued, hcached⟩⟩

/-- Two threads record launches of one kernel, which is then installed for another plan. -/
def twoThreads : List Operation :=
  [.install 0 0 "m" "k" (kernelEnding 0x000100FD), .launch 0 0 3 "m-k" {} [],
    .launch 0 0 5 "m-k" {} [], .install 1 0 "m" "k" (kernelEnding 0x000100FD)]

theorem queued_launches_installed_twoThreads :
    ((({} : Context).history twoThreads).pending 0 0 3).length = 5 ∧
    ∀ (i : Nat) (d : Simulator), (({} : Context).history twoThreads).devices[i]? = some d →
      ∀ list cs, d.lists.get? list = some cs →
      ∀ kernel range base frame, .launch kernel range base frame ∈ cs →
        (d.kernels.get? kernel).isSome := by
  refine ⟨by decide +kernel, fun i d hd list cs hlist kernel range base frame hmem => ?_⟩
  refine ((queued_launches_installed (fun _ => {}) {} fresh_default twoThreads).1 i d hd
    list cs hlist
    kernel range base frame hmem).resolve_right ?_
  rintro ⟨plan, thread, before, op, rest, hops, hcause, ⟨range, base, frame, hqueued⟩, hcached, -⟩
  -- one install comes before any launch, and the other is for a plan without kernels
  match before, hops with
  | [], hops =>
    cases hops
    cases hqueued
  | [_], hops | [_, _], hops =>
    cases hops
    simp [Operation.Installs] at hcause
  | [_, _, _], hops =>
    cases hops
    obtain ⟨rfl, rfl⟩ : 1 = plan ∧ 0 = i := by simpa [Operation.Installs] using hcause
    have hempty : (((({} : Context).history
        [.install 0 0 "m" "k" (kernelEnding 0x000100FD), .launch 0 0 3 "m-k" {} [],
          .launch 0 0 5 "m-k" {} []]).scene.share 1 0).kernels.handles) = [] := by
      decide +kernel
    unfold Scene.Cached at hcached
    rw [hempty] at hcached
    cases hcached
  | _ :: _ :: _ :: _ :: before, hops => simp [twoThreads] at hops

/-- A kernel that is installed again under its key leaves a launch that cannot run. -/
theorem reinstall_strands_launch :
    (failure (Control.flush 0 0 3) (({} : Context).history
      [.install 0 0 "m" "k" (kernelEnding 0x000100FD), .launch 0 0 3 "m-k" {} [],
        .install 0 0 "m" "k" (kernelEnding 0x000100FD)])).map Error.message =
      some (Error.unknownKernel (.handle 1)).message := by
  decide +kernel

end Context

end KernelForge.Host
