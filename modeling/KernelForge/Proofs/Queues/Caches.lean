import KernelForge.Proofs.Queues.Lists

/-!
# Which kernel a cache has

A cache has, for an entry point of a unit, the kernel that was installed last under the same key.
Keys are texts, so units and entry points with dashes in their names can share one; what is under
any other key is neither replaced nor released.
-/

namespace KernelForge.Host

open List Control
open Device (Simulator Operate Program)

/-! ## Keys -/

/-- Two entry points share a key exactly if they are the same, or if the id of
one goes on, after a dash, with what the entry point of the other starts with. -/
theorem cacheKey_eq_iff (id entry id' entry' : String) : cacheKey id entry = cacheKey id' entry' ↔
    (id = id' ∧ entry = entry') ∨
      (∃ m, id' = id ++ "-" ++ m ∧ entry = m ++ "-" ++ entry') ∨
      ∃ m, id = id' ++ "-" ++ m ∧ entry' = m ++ "-" ++ entry := by
  have hsplit : ∀ {id entry id' entry' : String} {m : List Char},
      id'.toList = id.toList ++ m → '-' :: entry.toList = m ++ '-' :: entry'.toList →
      (id = id' ∧ entry = entry') ∨ ∃ m, id' = id ++ "-" ++ m ∧ entry = m ++ "-" ++ entry' := by
    intro id entry id' entry' m hid hentry
    cases m with
    | nil =>
      rw [append_nil, String.toList_inj] at hid
      exact .inl ⟨hid.symm, String.toList_inj.1 (List.cons.inj hentry).2⟩
    | cons x m =>
      obtain ⟨rfl, hentry⟩ := List.cons.inj hentry
      refine .inr ⟨String.ofList m, ?_, ?_⟩
      · simp [← String.toList_inj, hid]
      · simpa [← String.toList_inj] using hentry
  constructor
  · intro h
    have hlist : id.toList ++ '-' :: entry.toList = id'.toList ++ '-' :: entry'.toList := by
      simpa [cacheKey, ← String.toList_inj] using h
    rcases append_eq_append_iff.1 hlist with ⟨m, hid, hentry⟩ | ⟨m, hid, hentry⟩
    · exact (hsplit hid hentry).imp_right .inl
    · exact (hsplit hid hentry).imp (fun h => ⟨h.1.symm, h.2.symm⟩) .inr
  · rintro (⟨rfl, rfl⟩ | ⟨m, rfl, rfl⟩ | ⟨m, rfl, rfl⟩)
    · rfl
    · simp [cacheKey, String.append_assoc]
    · simp [cacheKey, String.append_assoc]

/-! ## Installing -/

/-- Where a binary comes from. -/
inductive Supply where
  | binary (bytes : List UInt8)
  | file (name : String)

structure Installation where
  plan : Nat
  device : Nat
  id : String
  entry : String
  supply : Supply

namespace Installation

def key (i : Installation) : String := cacheKey i.id i.entry

def run (i : Installation) : Control InstalledKernel :=
  match i.supply with
  | .binary bytes => Control.install i.plan i.device i.id i.entry bytes
  | .file name => Control.installFile i.plan i.device i.id i.entry name

def bytes (i : Installation) (files : Table String (List UInt8)) : Option (List UInt8) :=
  match i.supply with
  | .binary bytes => some bytes
  | .file name => files.get? name

def Under (i : Installation) (plan device : Nat) (key : String) : Prop :=
  i.plan = plan ∧ i.device = device ∧ i.key = key

instance (i : Installation) (plan device : Nat) (key : String) :
    Decidable (i.Under plan device key) :=
  inferInstanceAs (Decidable (_ ∧ _ ∧ _))

end Installation

namespace Context

def bare (c : Context) : Context := { c with plans := ∅ }

def cached (c : Context) (plan device : Nat) (key : String) : Option InstalledKernel :=
  (c.share plan device).kernels.getKey? key

/-- The context after kernels were installed, or not. -/
def installs (c : Context) (is : List Installation) : Context :=
  is.foldl (fun c i => after i.run c) c

/-- What was installed, in order. -/
def installed (c : Context) : List Installation → List (Installation × InstalledKernel)
  | [] => []
  | i :: is =>
    match i.run c with
    | .ok kernel c' => (i, kernel) :: c'.installed is
    | .error _ c' => c'.installed is

/-- The kernel that was installed last under a key. -/
def latest (installed : List (Installation × InstalledKernel)) (plan device : Nat) (key : String) :
    Option InstalledKernel :=
  (installed.reverse.find? fun s => s.1.Under plan device key).map (·.2)

end Context

/-- The kernel on a device that a binary is built to for an entry point. -/
def Loads (d : Simulator) (kernel : InstalledKernel) : Prop :=
  ∃ program main, Operate.build kernel.binary kernel.entry = .ok (program, main) ∧
    d.kernels.get? kernel.handle = some ⟨kernel.entry, main, program⟩

/-- What an install does. -/
structure Places (i : Installation) (kernel : InstalledKernel) (c c' : Context) : Prop where
  key : kernel.key = i.key
  entry : kernel.entry = i.entry
  binary : i.bytes c.files = some kernel.binary
  files : c'.files = c.files
  cached : ∀ p j key, c'.cached p j key = if i.Under p j key then some kernel else c.cached p j key
  others : ∀ j, j ≠ i.device → c'.devices[j]? = c.devices[j]?
  device : ∃ d d', c.devices[i.device]? = some d ∧ c'.devices[i.device]? = some d' ∧
    d.lastHandle < kernel.handle ∧ kernel.handle ≤ d'.lastHandle ∧ Loads d' kernel ∧
    ∀ h ≤ d.lastHandle, (∀ previous, c.cached i.plan i.device i.key = some previous →
      previous.handle ≠ h) → d'.kernels.get? h = d.kernels.get? h

/-- Every kernel in a cache is on its device, and no two have the same handle. -/
structure Held (c : Context) : Prop where
  loads : ∀ p i key kernel, c.cached p i key = some kernel →
    ∃ d, c.devices[i]? = some d ∧ kernel.handle ≤ d.lastHandle ∧ Loads d kernel
  apart : ∀ p p' i key key' kernel kernel', c.cached p i key = some kernel →
    c.cached p' i key' = some kernel' → kernel.handle = kernel'.handle → p = p' ∧ key = key'

namespace KernelCache

variable {k : KernelCache} {id entry : String} {binary : List UInt8} {d : Simulator}

/-- A kernel takes the next handle, and the place of the one under its key. -/
theorem install_over (source : Option Source) {program : Program} {main : Spirv.Id}
    (h : Operate.build binary entry = .ok (program, main))
    (hprevious : ∀ previous, k.getKey? (cacheKey id entry) = some previous →
      (d.kernels.get? previous.handle).isSome) :
    ∃ kernels,
      k.install id entry binary source d =
        .ok (⟨cacheKey id entry, entry, binary, source, d.lastHandle + 1⟩,
          ⟨k.byKey.insert (cacheKey id entry)
            ⟨cacheKey id entry, entry, binary, source, d.lastHandle + 1⟩⟩)
          { d with lastHandle := d.lastHandle + 1, kernels } ∧
      ∀ h, (∀ previous, k.getKey? (cacheKey id entry) = some previous → previous.handle ≠ h) →
        kernels.get? h = (d.kernels.insert (d.lastHandle + 1) ⟨entry, main, program⟩).get? h := by
  cases hkey : k.getKey? (cacheKey id entry) with
  | none => exact ⟨_, install_ok (Operate.install_ok h) (by rw [hkey]; rfl), fun _ _ => rfl⟩
  | some previous =>
    have hcontains : (d.kernels.insert (d.lastHandle + 1) ⟨entry, main, program⟩).contains
        previous.handle = true := by
      unfold Table.contains
      rw [Table.get?_insert]
      split
      · rfl
      · exact hprevious previous hkey
    refine ⟨_, install_ok (Operate.install_ok h) ?_, fun h hne =>
      Table.get?_erase_of_ne _ (hne previous rfl)⟩
    rw [hkey]
    exact (Operate.releaseKernel_eq _ _).trans (if_pos hcontains)

end KernelCache

/-! ## One install -/

/-- The same caches, devices and files. -/
structure Alike (c c' : Context) : Prop where
  share : c'.share = c.share
  devices : c'.devices = c.devices
  files : c'.files = c.files

/-- An install fails and leaves caches and devices, or puts its kernel under its key. -/
def Installation.Settles (i : Installation) (c : Context) :
    EStateM.Result Error Context InstalledKernel → Prop
  | .error _ c' => Alike c c'
  | .ok kernel c' => Places i kernel c c'

theorem Held.alike {c c' : Context} (h : Held c) (hc : Alike c c') : Held c' := by
  have hcached : c'.cached = c.cached := by
    unfold Context.cached
    rw [hc.share]
  constructor
  · intro p i key kernel hkernel
    rw [hc.devices]
    exact h.loads p i key kernel (hcached ▸ hkernel)
  · intro p p' i key key' kernel kernel' hkernel hkernel'
    exact h.apart p p' i key key' kernel kernel' (hcached ▸ hkernel) (hcached ▸ hkernel')

variable {plan device : Nat} {kernel : InstalledKernel}

namespace Control

variable {c : Context} {d : Simulator}

/-- What an install does once it has a binary. -/
theorem installFrom_settles {i : Installation} {binary : List UInt8} (h : Held c)
    (hd : c.devices[i.device]? = some d) (hbytes : i.bytes c.files = some binary)
    (source : Option Source) :
    i.Settles c (installFrom i.plan i.device i.id i.entry binary source c) := by
  cases hbuild : Operate.build binary i.entry with
  | error e =>
    have hrun : installFrom i.plan i.device i.id i.entry binary source c = .error e c :=
      (bind_of_error (onDevice_error hd (KernelCache.install_error hbuild))).trans
        (by rw [Context.setDevice_self hd])
    rw [hrun]
    exact ⟨rfl, rfl, rfl⟩
  | ok r =>
    obtain ⟨program, main⟩ := r
    have hprevious : ∀ previous, c.cached i.plan i.device i.key = some previous →
        (d.kernels.get? previous.handle).isSome := by
      intro previous hkey
      obtain ⟨_, hd', -, _, _, -, hget⟩ := h.loads _ _ _ _ hkey
      cases hd.symm.trans hd'
      rw [hget]
      rfl
    obtain ⟨kernels, hinstall, hkernels⟩ := KernelCache.install_over source hbuild hprevious
    let kernel : InstalledKernel := ⟨i.key, i.entry, binary, source, d.lastHandle + 1⟩
    let d' : Simulator := { d with lastHandle := d.lastHandle + 1, kernels }
    let k' : KernelCache := ⟨(c.share i.plan i.device).kernels.byKey.insert i.key kernel⟩
    have hrun : installFrom i.plan i.device i.id i.entry binary source c = .ok kernel
        ((c.setDevice i.device d').setShare i.plan i.device
          { c.share i.plan i.device with kernels := k' }) :=
      bind_of_ok (onDevice_ok hd hinstall)
    have hdevice : (c.setDevice i.device d').devices[i.device]? = some d' :=
      Context.getElem?_setDevice_self hd d'
    rw [hrun]
    refine ⟨rfl, rfl, hbytes, rfl, fun p j key => ?_, fun j hj => ?_, d, d', hd, hdevice,
      Nat.lt_succ_self _, Nat.le_refl _, ⟨program, main, hbuild, ?_⟩, fun h hle hne => ?_⟩
    · unfold Context.cached
      rw [Context.share_setShare]
      by_cases hp : i.plan = p ∧ i.device = j
      · rw [if_pos hp, ← hp.1, ← hp.2]
        show (Table.insert _ _ _).get? _ = _
        rw [Table.get?_insert]
        simp only [Installation.Under, true_and]
        rfl
      · rw [if_neg hp, if_neg fun hu => hp ⟨hu.1, hu.2.1⟩]
        rfl
    · show (c.setDevice i.device d').devices[j]? = _
      rw [Context.getElem?_setDevice, if_neg (Ne.symm hj)]
    · refine (hkernels _ fun previous hkey => ?_).trans (Table.get?_insert_self _ _ _)
      obtain ⟨_, hd', hle, -⟩ := h.loads _ _ _ _ hkey
      cases hd.symm.trans hd'
      exact Nat.ne_of_lt (Nat.lt_succ_of_le hle)
    · refine (hkernels h hne).trans ?_
      rw [Table.get?_insert, if_neg (Nat.ne_of_gt (Nat.lt_succ_of_le hle))]

theorem install_run (hd : c.devices[device]? = some d) (id entry : String)
    (binary : List UInt8) : install plan device id entry binary c =
      (if binary.isEmpty then throw (.emptyBinary (cacheKey id entry))
        else stage id entry binary >>= installFrom plan device id entry binary :
          Control InstalledKernel) (after (track plan) c) := by
  refine (bind_of_ok (claim_run hd)).trans ?_
  cases binary with
  | nil | cons => rfl

theorem installFile_run (hd : c.devices[device]? = some d)
    (id entry file : String) : installFile plan device id entry file c =
      (match c.files.get? file with
      | none => throw .staging
      | some binary =>
        if binary.isEmpty then throw (.emptyBinary (cacheKey id entry))
        else installFrom plan device id entry binary (some (.file file)) :
          Control InstalledKernel) (after (track plan) c) := by
  refine (bind_of_ok (claim_run hd)).trans ?_
  show (match c.files.get? file with | none => _ | some binary => _ : Control InstalledKernel) _ = _
  cases c.files.get? file with
  | none => rfl
  | some binary =>
    cases binary with
    | nil | cons => rfl

end Control

namespace Installation

variable {i : Installation} {c c₁ : Context}

/-- What an install does not read does not matter. -/
theorem Settles.alike {r : EStateM.Result Error Context InstalledKernel} (h : i.Settles c₁ r)
    (hc : Alike c c₁) : i.Settles c r := by
  cases r with
  | error e c' =>
    have h' : Alike c₁ c' := h
    exact ⟨h'.share.trans hc.share, h'.devices.trans hc.devices, h'.files.trans hc.files⟩
  | ok =>
    have hcached : c₁.cached = c.cached := by
      unfold Context.cached
      rw [hc.share]
    obtain ⟨hkey, hentry, hbinary, hfiles, hview, hothers, hdevice⟩ := h
    rw [hcached] at hview hdevice
    rw [hc.devices] at hothers hdevice
    exact ⟨hkey, hentry, hc.files ▸ hbinary, hfiles.trans hc.files, hview, hothers, hdevice⟩

/-- Every install settles. -/
theorem run_settles (h : Held c) (i : Installation) : i.Settles c (i.run c) := by
  cases hd : c.devices[i.device]? with
  | none =>
    have hclaim : i.run c = .error (.unknownDevice i.device) c := by
      unfold run
      cases i.supply with
      | binary | file => exact bind_of_error (Control.claim_of_none hd)
    rw [hclaim]
    exact ⟨rfl, rfl, rfl⟩
  | some =>
    have htrack : Alike c (after (Control.track i.plan) c) :=
      ⟨Control.share_track c i.plan, rfl, rfl⟩
    have hfrom : ∀ {c₁ : Context} {binary : List UInt8} {source : Option Source}, Alike c c₁ →
        i.bytes c.files = some binary →
        i.Settles c (Control.installFrom i.plan i.device i.id i.entry binary source c₁) :=
      fun hc hbytes => (Control.installFrom_settles (h.alike hc) (hc.devices ▸ hd)
        (hc.files ▸ hbytes) _).alike hc
    cases hsupply : i.supply with
    | binary bytes =>
      have hbytes : i.bytes c.files = some bytes := by rw [Installation.bytes, hsupply]
      rw [run, hsupply]
      show i.Settles c (Control.install i.plan i.device i.id i.entry bytes c)
      rw [install_run hd]
      split
      · exact htrack
      · rcases stage_cases i.id i.entry bytes (after (track i.plan) c) with
          ⟨hstage, -⟩ | ⟨source, staged, hstage⟩
        · rw [bind_of_error hstage]
          exact htrack
        · rw [bind_of_ok hstage]
          exact hfrom ⟨htrack.share, rfl, rfl⟩ hbytes
    | file name =>
      rw [run, hsupply]
      show i.Settles c (Control.installFile i.plan i.device i.id i.entry name c)
      rw [installFile_run hd]
      cases hfile : c.files.get? name with
      | none => exact htrack
      | some bytes =>
        have hbytes : i.bytes c.files = some bytes := by rwa [Installation.bytes, hsupply]
        dsimp only
        split
        · exact htrack
        · exact hfrom htrack hbytes

end Installation

/-! ## Any number of installs -/

theorem Places.held {i : Installation} {c c' : Context} (h : Held c)
    (hp : Places i kernel c c') : Held c' := by
  obtain ⟨d, d', hd, hd', hnew, hlast, hloads, hkept⟩ := hp.device
  -- the handles in the caches of the device were given out before
  have hold : ∀ {p key k}, c.cached p i.device key = some k → k.handle ≤ d.lastHandle := by
    intro p key k hk
    obtain ⟨_, hd₁, hle, -⟩ := h.loads _ _ _ _ hk
    cases hd.symm.trans hd₁
    exact hle
  constructor
  · intro p j key k hk
    rw [hp.cached] at hk
    split at hk
    · next hu =>
      cases hk
      exact ⟨d', hu.2.1 ▸ hd', hlast, hloads⟩
    · next hu =>
      by_cases hj : j = i.device
      · subst hj
        refine ⟨d', hd', Nat.le_trans (hold hk) (Nat.le_trans (Nat.le_of_lt hnew) hlast), ?_⟩
        obtain ⟨_, hd₁, -, program, main, hbuild, hget⟩ := h.loads _ _ _ _ hk
        cases hd.symm.trans hd₁
        have hother : ∀ previous, c.cached i.plan i.device i.key = some previous →
            previous.handle ≠ k.handle := by
          intro previous hprevious heq
          obtain ⟨hplan, hkey⟩ := h.apart _ _ _ _ _ _ _ hprevious hk heq
          exact hu ⟨hplan, rfl, hkey⟩
        exact ⟨program, main, hbuild, (hkept _ (hold hk) hother).trans hget⟩
      · rw [hp.others j hj]
        exact h.loads p j key k hk
  · intro p p' j key key' k k' hk hk' heq
    rw [hp.cached] at hk hk'
    split at hk
    · next hu =>
      cases hk
      obtain ⟨rfl, rfl, rfl⟩ := hu
      split at hk'
      · next hu' => exact ⟨hu'.1, hu'.2.2⟩
      · exact absurd (heq ▸ hnew) (Nat.not_lt.2 (hold hk'))
    · split at hk'
      · next hu' =>
        cases hk'
        obtain ⟨rfl, rfl, rfl⟩ := hu'
        exact absurd (heq.symm ▸ hnew) (Nat.not_lt.2 (hold hk))
      · exact h.apart p p' j key key' k k' hk hk' heq

namespace Context

variable {c : Context}

/-- Nothing is installed before a plan is in use. -/
theorem held_bare (c : Context) : Held c.bare := ⟨nofun, nofun⟩

theorem held_run (h : Held c) (i : Installation) : Held (after i.run c) := by
  have hsettles := i.run_settles h
  cases hrun : i.run c with
  | error =>
    rw [hrun] at hsettles
    rw [after_of_error hrun]
    exact h.alike hsettles
  | ok =>
    rw [hrun] at hsettles
    rw [after_of_ok hrun]
    exact Places.held h hsettles

theorem held_installs (h : Held c) (is : List Installation) : Held (c.installs is) := by
  induction is generalizing c with
  | nil => exact h
  | cons i is ih => exact ih (held_run h i)

/-- A key has the kernel that was installed last under it. -/
theorem cached_installs (h : Held c) (is : List Installation) (plan device : Nat) (key : String) :
    (c.installs is).cached plan device key =
      (latest (c.installed is) plan device key).or (c.cached plan device key) := by
  induction is generalizing c with
  | nil => rfl
  | cons i is ih =>
    have hsettles := i.run_settles h
    have hrest := ih (held_run h i)
    show ((after i.run c).installs is).cached plan device key = _
    rw [hrest]
    cases hrun : i.run c with
    | error e c' =>
      rw [hrun] at hsettles
      rw [installed, hrun, after_of_error hrun]
      rw [cached, cached, hsettles.share]
    | ok =>
      rw [hrun] at hsettles
      rw [installed, hrun, after_of_ok hrun, hsettles.cached]
      unfold latest
      rw [reverse_cons, List.find?_append, Option.map_or, Option.or_assoc]
      congr 1
      by_cases hu : i.Under plan device key
      · simp [hu]
      · simp [hu]

/-- What was installed has the key and the entry point it was asked for, and the bytes. -/
theorem mem_installed (h : Held c) {is : List Installation} {s : Installation × InstalledKernel}
    (hs : s ∈ c.installed is) : s.2.key = s.1.key ∧ s.2.entry = s.1.entry ∧
      s.1.bytes c.files = some s.2.binary := by
  induction is generalizing c with
  | nil => cases hs
  | cons i is ih =>
    have hsettles := i.run_settles h
    have hrest := ih (held_run h i)
    rw [installed] at hs
    cases hrun : i.run c with
    | error =>
      rw [hrun] at hsettles hs
      rw [after_of_error hrun] at hrest
      exact hsettles.files ▸ hrest hs
    | ok =>
      rw [hrun] at hsettles hs
      rw [after_of_ok hrun] at hrest
      rcases mem_cons.1 hs with rfl | hs
      · exact ⟨hsettles.key, hsettles.entry, hsettles.binary⟩
      · exact hsettles.files ▸ hrest hs

/-- An install under another key leaves a kernel in its cache and on its device. -/
theorem run_keeps (h : Held c) {i : Installation} {key : String} (hi : ¬i.Under plan device key)
    (hkernel : c.cached plan device key = some kernel) :
    (after i.run c).cached plan device key = some kernel := by
  have hcached := cached_installs h [i] plan device key
  have hlatest : latest (c.installed [i]) plan device key = none := by
    unfold latest installed
    cases i.run c with
    | error => rfl
    | ok => simp [hi, installed]
  rw [hlatest] at hcached
  exact hcached.trans hkernel

/-- **caches_by_key**: from a context without plans, a cache has for an entry point of a unit the
kernel that was installed last under the same key. It is on the device, and only an install under
that key replaces or releases it. -/
theorem caches_by_key (c : Context) (is : List Installation) :
    (∀ plan device id entry,
      ((c.bare.installs is).share plan device).kernels.get? id entry =
          latest (c.bare.installed is) plan device (cacheKey id entry) ∧
        ((c.bare.installs is).isCached plan device id entry = true ↔
          ∃ s ∈ c.bare.installed is, s.1.Under plan device (cacheKey id entry))) ∧
    (∀ s ∈ c.bare.installed is,
      s.2.key = s.1.key ∧ s.2.entry = s.1.entry ∧ s.1.bytes c.files = some s.2.binary) ∧
    (∀ plan device id entry kernel,
      ((c.bare.installs is).share plan device).kernels.get? id entry = some kernel →
      (∃ d, (c.bare.installs is).devices[device]? = some d ∧ Loads d kernel) ∧
      ∀ i : Installation, ¬i.Under plan device (cacheKey id entry) →
        ((c.bare.installs (is ++ [i])).share plan device).kernels.get? id entry = some kernel ∧
        ∃ d, (c.bare.installs (is ++ [i])).devices[device]? = some d ∧ Loads d kernel) ∧
    ∀ id entry id' entry', cacheKey id entry = cacheKey id' entry' ↔
      (id = id' ∧ entry = entry') ∨
        (∃ m, id' = id ++ "-" ++ m ∧ entry = m ++ "-" ++ entry') ∨
        ∃ m, id = id' ++ "-" ++ m ∧ entry' = m ++ "-" ++ entry := by
  have hbare := held_bare c
  have hheld := held_installs hbare is
  have hcached : ∀ plan device id entry,
      ((c.bare.installs is).share plan device).kernels.get? id entry =
        latest (c.bare.installed is) plan device (cacheKey id entry) := fun plan device id entry =>
      (cached_installs hbare is plan device (cacheKey id entry)).trans Option.or_none
  refine ⟨fun plan device id entry => ⟨hcached plan device id entry, ?_⟩,
    fun s hs => mem_installed hbare hs,
    fun plan device id entry kernel hkernel => ⟨?_, fun i hi => ?_⟩, cacheKey_eq_iff⟩
  · rw [isCached, KernelCache.isCached, hcached, latest]
    simp
  · obtain ⟨d, hd, -, hloads⟩ := hheld.loads _ _ _ _ hkernel
    exact ⟨d, hd, hloads⟩
  · have hkept := run_keeps hheld hi hkernel
    obtain ⟨d, hd, -, hloads⟩ := (held_run hheld i).loads _ _ _ _ hkept
    have hstep : c.bare.installs (is ++ [i]) = after i.run (c.bare.installs is) :=
      foldl_append
    rw [hstep]
    exact ⟨hkept, d, hd, hloads⟩

/-- A binary with entry points `c` and `b-c` of one function. -/
def twoNames : List UInt8 :=
  Spirv.bytesOfWords
    [0x07230203, 0x00010000, 0, 9, 0, 0x0004000F, 6, 3, 0x63, 0x0004000F, 6, 3, 0x632d62,
      0x00020013, 1, 0x00040015, 5, 8, 0, 0x00040020, 8, 5, 5, 0x00050021, 2, 1, 8, 8,
      0x00050036, 1, 3, 0, 2, 0x00030037, 8, 6, 0x00030037, 8, 7, 0x000200F8, 4, 0x000100FD,
      0x00010038]

/-- An entry point `c` of a unit `a-b`, and one `b-c` of a unit `a`. -/
def sharing : List Installation :=
  [⟨0, 0, "a-b", "c", .binary twoNames⟩, ⟨0, 0, "a", "b-c", .binary twoNames⟩]

/-- Two entry points of different units can share a key: the second takes the place of the first,
which is released. -/
theorem shared_key_replaces :
    (({} : Context).installed sharing).map (fun s => (s.1.id, s.2.entry, s.2.handle)) =
      [("a-b", "c", 1), ("a", "b-c", 2)] ∧
    (((({} : Context).installs sharing).share 0 0).kernels.get? "a-b" "c").map
      (fun k => (k.entry, k.handle)) = some ("b-c", 2) ∧
    (({} : Context).installs sharing).devices.toList.map (·.kernels.keys) = [[2]] := by
  decide +kernel

end Context

end KernelForge.Host
