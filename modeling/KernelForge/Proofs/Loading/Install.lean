import KernelForge.Proofs.Holdings.Operations
import KernelForge.Proofs.Loading.Module

/-!
# Every assembled module can be installed

What the assembler emits, a device loads: an assembled module, read back as it was written, has a
program whose entry points are its kernels (`Assembler.Completed.program`), so that each kernel can
be installed, whatever plans and devices did before (`Control.installModule_ok`).
-/

namespace KernelForge

open List
open Lir (Module)
open Lir.Function (isKernel)
open Spirv (load)

namespace Codegen

open Spirv (Id)
open Device (Program)

variable {m : Module} {settings : CodegenSettings} {binary : Binary} {a : Assembler}

/-- The program of an assembled module. Its entry points are the kernels, and a name stands
for the last function with that name. -/
structure Assembler.Loaded (a : Assembler) (m : Module) (p : Program) : Prop where
  entries : p.entries =
    (m.functions.filter isKernel).map fun f => (f.name, a.idOf f.name)
  evaluated : Device.Evaluated a.session.draft.module.globals a.session.draft.next p
  taken : ∀ (id : Id) f, p.functions[id]? = some f →
    ∃ e ∈ a.session.draft.module.functions, f = .of e.asRead
  functions : ∀ (i : Nat) f e, m.functions[i]? = some f →
    (∀ (j : Nat) g, i < j → m.functions[j]? = some g → g.name ≠ f.name) →
    a.session.draft.module.functions[i]? = some e →
    p.functions[a.idOf f.name]? = some (.of e.asRead)

namespace Assembler.Completed

variable (h : a.Completed m settings binary)

include h

/-- Kernels with the ids of their names. -/
theorem entries :
    a.session.draft.module.entryPoints.filterMap Program.entryOf =
      (m.functions.filter isKernel).map fun f => (f.name, a.idOf f.name) := by
  rw [h.entryPoints]
  clear h
  induction m.functions with
  | nil => rfl
  | cons f fs ih =>
    rw [flatMap_cons, filterMap_append, ih, filter_cons, isKernel, entryPointOf]
    cases f.role with
    | kernel | device => rfl

variable {f : Lir.Function}

/-- The function at a position has the id of its name. -/
theorem function_at {i : Nat} (hf : m.functions[i]? = some f) :
    ∃ e, a.session.draft.module.functions[i]? = some e ∧
      e.definition.result = some (a.idOf f.name) := by
  have hi := congrArg (·[i]?) h.functions
  simp only [List.getElem?_map, hf, Option.map_some] at hi
  exact Option.map_eq_some_iff.1 hi

/-- A function that stands after another one and has another name has another id. -/
theorem later_apart {i : Nat} (hf : m.functions[i]? = some f)
    (hlast : ∀ (j : Nat) g, i < j → m.functions[j]? = some g → g.name ≠ f.name)
    {e : Spirv.Function} (he : e ∈ a.session.draft.module.functions.drop (i + 1)) :
    ∃ id, e.definition.result = some id ∧ id ≠ a.idOf f.name := by
  obtain ⟨j, hj⟩ := List.getElem?_of_mem he
  rw [List.getElem?_drop] at hj
  have hids := congrArg (·[i + 1 + j]?) h.functions
  simp only [List.getElem?_map, hj, Option.map_some] at hids
  obtain ⟨g, hg, hid⟩ := Option.map_eq_some_iff.1 hids.symm
  refine ⟨a.idOf g.name, hid.symm, fun heq => ?_⟩
  exact hlast (i + 1 + j) g (by omega) hg
    (h.apart g (mem_of_getElem? hg) f (mem_of_getElem? hf) heq)

/-- A completed module, read back, has a program. -/
theorem program (hread : load binary.words = .ok a.session.draft.finish.asRead) :
    ∃ p, Program.ofWords binary.words = .ok p ∧ a.Loaded m p := by
  have hfunctions : ∀ f ∈ a.session.draft.finish.asRead.functions, f.Loadable := by
    intro f hf
    obtain ⟨f₀, hf₀, rfl⟩ := mem_map.1 hf
    exact (h.loads.functions f₀ hf₀).asRead
  obtain ⟨p, p₀, hp, hfold, hempty, hknows, hentries⟩ :=
    Program.ofModule_ok (m := a.session.draft.finish.asRead) h.loads.evaluates hfunctions
  refine ⟨p, ?_, hentries.trans h.entries, hknows, fun id f hf => ?_, fun i f e hf hlast he => ?_⟩
  · rw [Program.ofWords, hread]
    dsimp only
    rw [hp]
  · rw [hfold] at hf
    rcases Program.functions_foldl_mem hf with hnone | ⟨g, hg, rfl⟩
    · simp [hempty] at hnone
    · obtain ⟨e, he, rfl⟩ := mem_map.1 hg
      exact ⟨e, he, rfl⟩
  · obtain ⟨e', he', hid⟩ := h.function_at hf
    rw [he] at he'
    cases he'
    obtain ⟨hi, hget⟩ := List.getElem?_eq_some_iff.1 he
    have hsplit : a.session.draft.finish.asRead.functions =
        (a.session.draft.module.functions.take i).map Spirv.Function.asRead ++
          e.asRead ::
            (a.session.draft.module.functions.drop (i + 1)).map Spirv.Function.asRead := by
      rw [← map_cons, ← map_append, ← hget, ← drop_eq_getElem_cons hi, take_append_drop]
      rfl
    have hself : e.asRead.definition.result.getD 0 = a.idOf f.name := by
      show e.definition.result.getD 0 = _
      rw [hid]
      rfl
    rw [hfold, hsplit, ← hself]
    refine Program.functions_foldl p₀ fun g hg => ?_
    obtain ⟨g₀, hg₀, rfl⟩ := mem_map.1 hg
    obtain ⟨id, hresult, hne⟩ := h.later_apart hf hlast hg₀
    show g₀.definition.result.getD 0 ≠ _
    rw [hself, hresult]
    exact hne

end Assembler.Completed

end Codegen

/-! ## Installing -/

namespace Host

open Device (Operate Simulator Info)

variable {info : Nat → Info} {plan device : Nat} {unit : String} {entries : List String}
  {c c' : Context}

/-- Plans and devices in balance, where the files of kernels can be staged if they are
to be. -/
structure Context.Receives (info : Nat → Info) (device : Nat) (unit : String)
    (entries : List String) (c : Context) : Prop where
  balanced : Balanced info c
  device : device < c.devices.size
  staging : c.settings.stageToDisk = false ∨
    (c.stagingOpen = true ∧ ∀ entry ∈ entries, canStage (stagedName unit entry) = true)

structure Context.SameHost (c c' : Context) : Prop where
  devices : c'.devices.size = c.devices.size
  settings : c'.settings = c.settings
  stagingOpen : c'.stagingOpen = c.stagingOpen

theorem Context.SameHost.trans {c'' : Context} (h : c.SameHost c') (h' : c'.SameHost c'') :
    c.SameHost c'' :=
  ⟨h'.devices.trans h.devices, h'.settings.trans h.settings, h'.stagingOpen.trans h.stagingOpen⟩

theorem Context.Receives.same (h : c.Receives info device unit entries) (hs : c.SameHost c')
    (hb : Balanced info c') : c'.Receives info device unit entries where
  balanced := hb
  device := hs.devices ▸ h.device
  staging := by
    rw [hs.settings, hs.stagingOpen]
    exact h.staging

theorem Context.setDevice_same (c : Context) (device : Nat) (d : Simulator) :
    c.SameHost (c.setDevice device d) :=
  ⟨Array.size_setIfInBounds, rfl, rfl⟩

namespace Control

/-- Steps that keep the balance keep it when they succeed. -/
theorem balanced_of_ok {α : Type} {x : Control α} {a : α} (hx : Along (KeepsBalance info) x)
    (hrun : x c = .ok a c') (hc : Balanced info c) : Balanced info c' := by
  have hkeeps : KeepsBalance info c (after x c) := hx c
  rw [after_of_ok hrun] at hkeeps
  exact hkeeps hc

theorem claim_ok (plan : Nat) (h : device < c.devices.size) :
    ∃ share c', claim plan device c = .ok share c' ∧ c.SameHost c' := by
  obtain ⟨d, hd⟩ : ∃ d, c.devices[device]? = some d := ⟨_, Array.getElem?_eq_getElem h⟩
  have hinfo : deviceInfo device c = .ok d.info (c.setDevice device d) := onDevice_ok hd rfl
  refine ⟨_, _, bind_ok.2 ⟨_, _, hinfo, bind_ok.2 ⟨(), _, modify_ok.2 rfl,
    bind_ok.2 ⟨_, _, rfl, rfl⟩⟩⟩, ?_⟩
  exact (c.setDevice_same device d).trans ⟨rfl, rfl, rfl⟩

variable {entry : String}

theorem stage_ok (h : c.Receives info device unit entries) (hentry : entry ∈ entries)
    (binary : List UInt8) :
    ∃ source c', stage unit entry binary c = .ok source c' ∧ c.SameHost c' := by
  rcases stage_cases unit entry binary c with ⟨-, hdisk, hclosed⟩ | ⟨source, staged, hrun⟩
  · rcases h.staging with hoff | ⟨hopen, hall⟩
    · cases hdisk.symm.trans hoff
    · rw [hopen, hall entry hentry] at hclosed
      cases hclosed
  · exact ⟨source, _, hrun, rfl, rfl, rfl⟩

variable {binary : List UInt8}

/-- A binary that a device can build is installed; the kernel it replaces is out and can be
released. -/
theorem installFrom_ok (plan : Nat) (unit : String) (source : Option Source) (hc : Balanced info c)
    (hdevice : device < c.devices.size) (hbuild : ∃ r, Operate.build binary entry = .ok r) :
    ∃ k c', installFrom plan device unit entry binary source c = .ok k c' ∧ k.entry = entry ∧
      c.SameHost c' := by
  obtain ⟨d, hd⟩ : ∃ d, c.devices[device]? = some d := ⟨_, Array.getElem?_eq_getElem hdevice⟩
  obtain ⟨rest, -, hheld⟩ := kernels_given (hc.devices device d hd) plan
  rcases KernelCache.install_gives _ unit entry binary source hheld with
    ⟨e, herr, -⟩ | ⟨kernel, k, d', hok, hentry, -⟩
  · obtain ⟨r, hr⟩ := hbuild
    rw [hr] at herr
    cases herr
  · refine ⟨kernel, _, bind_ok.2 ⟨c, c, rfl, bind_ok.2 ⟨_, _, onDevice_ok hd hok,
      bind_ok.2 ⟨(), _, modify_ok.2 rfl, rfl⟩⟩⟩, hentry, ?_⟩
    exact (c.setDevice_same device d').trans ⟨rfl, rfl, rfl⟩

theorem install_ok (plan : Nat) (h : c.Receives info device unit entries) (hentry : entry ∈ entries)
    (hbinary : binary.isEmpty = false) (hbuild : ∃ r, Operate.build binary entry = .ok r) :
    ∃ k c', install plan device unit entry binary c = .ok k c' ∧ k.entry = entry ∧
      c'.Receives info device unit entries := by
  obtain ⟨share, c₁, hclaim, hs₁⟩ := claim_ok plan h.device
  have h₁ := h.same hs₁ (balanced_of_ok claim_keeps hclaim h.balanced)
  obtain ⟨source, c₂, hstage, hs₂⟩ := stage_ok h₁ hentry binary
  have h₂ := h₁.same hs₂ (balanced_of_ok (stage_keeps unit entry binary) hstage h₁.balanced)
  obtain ⟨k, c₃, hinstall, hk, hs₃⟩ := installFrom_ok plan unit source h₂.balanced h₂.device hbuild
  refine ⟨k, c₃, bind_ok.2 ⟨share, c₁, hclaim, ?_⟩, hk, h₂.same hs₃
    (balanced_of_ok (installFrom_keeps unit entry binary source) hinstall h₂.balanced)⟩
  rw [hbinary]
  exact bind_ok.2 ⟨source, c₂, hstage, hinstall⟩

/-- Entry points that a device can build are installed one after another. -/
theorem installAll_ok {todo : List String} (plan : Nat) (h : c.Receives info device unit entries)
    (htodo : ∀ entry ∈ todo, entry ∈ entries) (hbinary : binary.isEmpty = false)
    (hbuild : ∀ entry ∈ todo, ∃ r, Operate.build binary entry = .ok r) :
    ∃ ks c', (todo.mapM fun entry => install plan device unit entry binary) c = .ok ks c' ∧
      ks.map InstalledKernel.entry = todo := by
  induction todo generalizing c with
  | nil => exact ⟨[], c, rfl, rfl⟩
  | cons entry todo ih =>
    obtain ⟨hin, htodo⟩ := forall_mem_cons.1 htodo
    obtain ⟨hfirst, hbuild⟩ := forall_mem_cons.1 hbuild
    obtain ⟨k, c₁, hinstall, hk, h₁⟩ := install_ok plan h hin hbinary hfirst
    obtain ⟨ks, c₂, hrest, hks⟩ := ih h₁ htodo hbuild
    refine ⟨k :: ks, c₂, ?_, by rw [map_cons, hk, hks]⟩
    rw [mapM_cons]
    exact bind_ok.2 ⟨k, c₁, hinstall, bind_ok.2 ⟨ks, c₂, hrest, rfl⟩⟩

/-- A module whose entry points a device can build is installed. -/
theorem installModule_ok {m : Codegen.Binary} (plan : Nat)
    (h : c.Receives info device unit m.entryPoints) (hbinary : m.bytes.isEmpty = false)
    (hbuild : ∀ entry ∈ m.entryPoints, ∃ r, Operate.build m.bytes entry = .ok r) :
    ∃ ks c', installModule plan device unit m c = .ok ks c' ∧
      ks.map InstalledKernel.entry = m.entryPoints := by
  obtain ⟨share, c₁, hclaim, hs₁⟩ := claim_ok plan h.device
  have h₁ := h.same hs₁ (balanced_of_ok claim_keeps hclaim h.balanced)
  obtain ⟨ks, c₂, hall, hks⟩ := installAll_ok plan h₁ (fun _ he => he) hbinary hbuild
  exact ⟨ks, c₂, bind_ok.2 ⟨share, c₁, hclaim, hall⟩, hks⟩

end Control

/-- The bytes of a buffer after a kernel of a module ran on them, on a device of its own.
The kernel is told where the buffer is. -/
def trial (m : Module) (settings : CodegenSettings) (kernel : String) (range : Device.Range)
    (bytes : List UInt8) (args : Nat → List Argument) : Except Error (List UInt8) := do
  let binary ← Codegen.assemble m {} settings
  let run : Control (List UInt8) := do
    let _ ← Control.installModule 0 0 m.name binary
    let buffer ← Control.upload 0 0 0 bytes.length fun _ => bytes
    let _ ← Control.launch 0 0 0 (cacheKey m.name kernel) range (args buffer.address)
    Control.read 0 0 buffer 0 bytes.length
  match run {} with
  | .ok bytes _ => .ok bytes
  | .error e _ => .error e

end Host

/-! ## Assembled modules -/

namespace Codegen

open Device (Program Operate)

/-- Whether an assembled module is read back as it was written. -/
def readsBack (m : Module) (target : Target) (settings : CodegenSettings) : Bool :=
  match Assemble.wholeModule m (Assembler.new m.name target settings) with
  | .ok binary a => (load binary.words).toOption == some a.session.draft.finish.asRead
  | .error _ _ => false

variable {settings : CodegenSettings}

variable {target : Target} {binary : Binary} {m : Module}

theorem readsBack_ok {a : Assembler} (h : readsBack m target settings = true)
    (hrun : Assemble.wholeModule m (Assembler.new m.name target settings) = .ok binary a) :
    load binary.words = .ok a.session.draft.finish.asRead := by
  unfold readsBack at h
  rw [hrun] at h
  have h := eq_of_beq h
  cases hload : load binary.words with
  | error =>
    rw [hload] at h
    cases h
  | ok =>
    rw [hload] at h
    rw [Option.some.inj h]

/-- An assembled module that is read back as it was written is completed and has a program. -/
theorem assemble_completed
    (h : assemble m target settings = .ok binary) (hread : readsBack m target settings = true) :
    ∃ a p, Assemble.wholeModule m (Assembler.new m.name target settings) = .ok binary a ∧
      a.Completed m settings binary ∧ a.Loaded m p ∧ Program.ofWords binary.words = .ok p := by
  obtain ⟨a, hrun⟩ := assemble_ok h
  have hdone := Assemble.wholeModule_completed hrun
  obtain ⟨p, hp, hloaded⟩ := hdone.program (readsBack_ok hread hrun)
  exact ⟨a, p, hrun, hdone, hloaded, hp⟩

/-- **assemble_loads**: an assembled module that is read back as it was written has a program. The
names of its entry points are those of the kernels, and the name of a kernel stands for the function
that was emitted for it unless a later function has that name. Every kernel can be installed on a
device of plans in balance. -/
theorem assemble_loads {settings : CodegenSettings} (h : assemble m target settings = .ok binary)
    (hread : readsBack m target settings = true) :
    ∃ a p, Assemble.wholeModule m (Assembler.new m.name target settings) = .ok binary a ∧
      Spirv.wordsOfBytes? binary.bytes = some binary.words ∧
      Program.ofWords binary.words = .ok p ∧
      (∀ name, name ∈ p.entryNames ↔ name ∈ binary.entryPoints) ∧
      a.session.draft.finish.functions.length = m.functions.length ∧
      (∀ (i : Nat) f, m.functions[i]? = some f → f.isKernel = true →
        (∀ (j : Nat) g, i < j → m.functions[j]? = some g → g.name ≠ f.name) →
        ∃ e id, a.session.draft.finish.functions[i]? = some e ∧ e.definition.result = some id ∧
          p.entry? f.name = some id ∧ p.functions[id]? = some (.of e.asRead)) ∧
      ∀ info device unit (c : Host.Context), c.Receives info device unit binary.entryPoints →
        ∀ plan, ∃ ks c', Host.Control.installModule plan device unit binary c = .ok ks c' ∧
          ks.map Host.InstalledKernel.entry = binary.entryPoints := by
  obtain ⟨a, p, hrun, hdone, hloaded, hp⟩ := assemble_completed h hread
  have hbytes : Spirv.wordsOfBytes? binary.bytes = some binary.words :=
    Spirv.wordsOfBytes?_bytesOfWords binary.words
  refine ⟨a, p, hrun, hbytes, hp, fun name => ?_, ?_, fun i f hf hk hlast => ?_,
    fun info device unit c hc plan => Host.Control.installModule_ok plan hc ?_ fun entry he => ?_⟩
  · rw [Program.mem_entryNames, hloaded.entries, hdone.names, map_map]
    rfl
  · have hlength := congrArg List.length hdone.functions
    rw [length_map, length_map] at hlength
    exact hlength
  · obtain ⟨e, he, hid⟩ := hdone.function_at hf
    have hmem := mem_filter.2 ⟨mem_of_getElem? hf, hk⟩
    exact ⟨e, a.idOf f.name, he, hid, Program.entry?_kernel hloaded.entries hmem,
      hloaded.functions i f e hf hlast he⟩
  · show (Spirv.bytesOfWords binary.words).isEmpty = false
    rw [hdone.words]
    rfl
  · rw [hdone.names] at he
    obtain ⟨f, hf, rfl⟩ := mem_map.1 he
    exact ⟨_, Operate.build_ok hbytes hp (Program.entry?_kernel hloaded.entries hf)⟩

/-- A kernel that reads a vector, calls a function and keeps its result in a workgroup array. -/
def calling : Module :=
  ⟨"calling",
    [⟨"twice", .device, [⟨⟨0⟩, .i32, none⟩], .i32, [⟨⟨1⟩, .i32⟩], [],
      [⟨⟨0⟩, [.binary ⟨1⟩ .add (.var ⟨0⟩) (.var ⟨0⟩)], .ret (some (.var ⟨1⟩))⟩]⟩,
     ⟨"scale", .kernel, [⟨⟨0⟩, .ptr, none⟩, ⟨⟨1⟩, .i32, none⟩], .void,
      [⟨⟨2⟩, .vector .f32 4⟩, ⟨⟨3⟩, .i32⟩], [⟨⟨0⟩, .perGroup, .i32, 8⟩],
      [⟨⟨0⟩, [.load ⟨2⟩ (.heap ⟨0⟩ none), .call (some ⟨3⟩) "twice" [.var ⟨1⟩],
        .store (.array .perGroup ⟨0⟩ (.const ⟨"2", .i32⟩)) (.var ⟨3⟩),
        .store (.heap ⟨0⟩ none) (.var ⟨2⟩)], .ret none⟩]⟩]⟩

theorem assemble_loads_calling :
    ∃ binary, assemble calling {} {} = .ok binary ∧ readsBack calling {} {} = true ∧
      binary.entryPoints = ["scale"] ∧
      (∃ p, Program.ofWords binary.words = .ok p ∧
        ∀ name, name ∈ p.entryNames ↔ name ∈ binary.entryPoints) ∧
      ∃ ks c', Host.Control.installModule 0 0 "unit" binary {} = .ok ks c' ∧
        ks.map Host.InstalledKernel.entry = ["scale"] := by
  have hnames : (assemble calling {} {}).toOption.map Binary.entryPoints = some ["scale"] := by
    decide +kernel
  have hread : readsBack calling {} {} = true := by decide +kernel
  cases hrun : assemble calling {} {} with
  | error =>
    rw [hrun] at hnames
    cases hnames
  | ok binary =>
    rw [hrun] at hnames
    have hnames : binary.entryPoints = ["scale"] := Option.some.inj hnames
    obtain ⟨a, p, -, -, hp, hentries, -, -, hinstall⟩ := assemble_loads hrun hread
    obtain ⟨ks, c', hks, hall⟩ := hinstall (fun _ => {}) 0 "unit" {}
      ⟨Host.Context.fresh_default.balanced, Nat.one_pos, .inl rfl⟩ 0
    exact ⟨binary, rfl, hread, hnames, ⟨p, hp, hentries⟩, ks, c', hks, hall.trans hnames⟩

/-- A kernel and a later function of the same name. -/
def namesakes : Module :=
  ⟨"namesakes",
    [⟨"k", .kernel, [⟨⟨0⟩, .ptr, none⟩], .void, [], [],
      [⟨⟨0⟩, [.store (.heap ⟨0⟩ none) (.const ⟨"7", .i32⟩)], .ret none⟩]⟩,
     ⟨"k", .device, [], .void, [], [], [⟨⟨0⟩, [], .ret none⟩]⟩]⟩

/-- The later function takes the place of the kernel: the entry point has no parameters. -/
theorem namesake_hides_kernel :
    readsBack namesakes {} {} = true ∧ (do
      let binary ← (assemble namesakes {} {}).toOption
      let p ← (Program.ofWords binary.words).toOption
      let f ← p.functions[← p.entry? "k"]?
      return (binary.entryPoints, f.params.length)) = some (["k"], 0) := by
  decide +kernel

end Codegen

end KernelForge
