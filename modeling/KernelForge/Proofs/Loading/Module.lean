import KernelForge.Device.Simulator
import KernelForge.Proofs.Layout.Owners
import KernelForge.Proofs.Loading.Session

/-!
# Programs of assembled modules

A module with declarations that can be evaluated and functions that can be taken over has a program
(`Program.ofModule_ok`). An assembled module is one: its functions stand in the order of the source,
each under the id of its name, and its entry points are the kernels (`Assembler.Completed`).
-/

namespace KernelForge

open List

variable {name : String}

namespace Device

open Spirv (Id Module)

/-- The function a device has for a function of a module. -/
def Function.of (f : Spirv.Function) : Function where
  params := f.params.map fun i => (i.result.getD 0, i.resultType.getD 0)
  blocks := f.blocks.map fun b => ⟨b.label.result.getD 0, b.body⟩

variable {id : Id}

namespace Program

/-- Take a function over, under the id of its definition. -/
def withFunction (p : Program) (f : Spirv.Function) : Program :=
  { p with functions := p.functions.insert (f.definition.result.getD 0) (.of f) }

variable {i : Spirv.Instruction} {f : Spirv.Function}

theorem resultOf_of_isSome (h : i.result.isSome = true) : resultOf i = .ok (i.result.getD 0) := by
  obtain ⟨id, hid⟩ := Option.isSome_iff_exists.1 h
  rw [resultOf, hid]
  rfl

theorem resultTypeOf_of_isSome (h : i.resultType.isSome = true) :
    resultTypeOf i = .ok (i.resultType.getD 0) := by
  obtain ⟨id, hid⟩ := Option.isSome_iff_exists.1 h
  rw [resultTypeOf, hid]
  rfl

theorem blockOf_ok {b : Spirv.Block} (h : b.Loadable) :
    blockOf b = .ok ⟨b.label.result.getD 0, b.body⟩ := by
  have hfind : b.body.find? (fun i => !isExecutable i.opcode) = none := by
    rw [List.find?_eq_none]
    intro i hi
    simp [h.body i hi]
  unfold blockOf
  rw [resultOf_of_isSome h.label.2, hfind]
  rfl

theorem define_ok (p : Program) (h : f.Loadable) : p.define f = .ok (p.withFunction f) := by
  have hparams : f.params.mapM (fun i => do return (← resultOf i, ← resultTypeOf i)) =
      .ok (f.params.map fun i => (i.result.getD 0, i.resultType.getD 0)) := by
    refine mapM_ok_of fun i hi => ?_
    obtain ⟨-, hr, ht⟩ := h.params i hi
    rw [resultOf_of_isSome hr, resultTypeOf_of_isSome ht]
    rfl
  have hblocks : f.blocks.mapM blockOf =
    .ok (f.blocks.map fun b => ⟨b.label.result.getD 0, b.body⟩) :=
    mapM_ok_of fun b hb => blockOf_ok (h.blocks b hb)
  unfold define
  rw [resultOf_of_isSome h.definition.2, hparams, hblocks]
  rfl

variable {fs : List Spirv.Function}

theorem defineAll_ok (h : ∀ f ∈ fs, f.Loadable) (p : Program) :
    fs.foldlM define p = .ok (fs.foldl withFunction p) := by
  induction fs generalizing p with
  | nil => rfl
  | cons f fs ih =>
    rw [foldlM_cons, define_ok p (h f mem_cons_self)]
    exact ih (fun f hf => h f (mem_cons_of_mem _ hf)) _

/-! Functions that are taken over change nothing else. -/

theorem foldl_withFunction_same (fs : List Spirv.Function) (p : Program) :
    fs.foldl withFunction p = { p with functions := (fs.foldl withFunction p).functions } := by
  induction fs generalizing p with
  | nil => rfl
  | cons f fs ih =>
    rw [foldl_cons, ih]
    rfl

/-- Of two functions with one id, the later counts. -/
theorem functions_foldl {later : List Spirv.Function} (p : Program)
    (h : ∀ g ∈ later, g.definition.result.getD 0 ≠ f.definition.result.getD 0) :
    ((fs ++ f :: later).foldl withFunction p).functions[f.definition.result.getD 0]? =
      some (.of f) := by
  rw [foldl_append, foldl_cons]
  generalize hq : (fs.foldl withFunction p).withFunction f = q
  have hfound : q.functions[f.definition.result.getD 0]? = some (.of f) := by
    rw [← hq]
    exact Std.TreeMap.getElem?_insert_self
  clear hq
  induction later generalizing q with
  | nil => exact hfound
  | cons g later ih =>
    refine ih (fun g hg => h g (mem_cons_of_mem _ hg)) _ ?_
    rw [withFunction, Std.TreeMap.getElem?_insert, if_neg (by simpa using h g mem_cons_self)]
    exact hfound

variable {p : Program}

/-- A function that was taken over is one of the module. -/
theorem functions_foldl_mem {f : Function} (h : (fs.foldl withFunction p).functions[id]? = some f) :
    p.functions[id]? = some f ∨ ∃ g ∈ fs, f = .of g := by
  induction fs generalizing p with
  | nil => exact .inl h
  | cons g fs ih =>
    rcases ih h with hold | ⟨g', hg', rfl⟩
    · rw [withFunction, Std.TreeMap.getElem?_insert] at hold
      split at hold
      · cases hold
        exact .inr ⟨g, mem_cons_self, rfl⟩
      · exact .inl hold
    · exact .inr ⟨g', mem_cons_of_mem _ hg', rfl⟩

/-- What can be loaded has a program. -/
theorem ofModule_ok {m : Module} {next : Id} (he : Evaluates m.globals next)
    (hf : ∀ f ∈ m.functions, f.Loadable) :
    ∃ p p₀, ofModule m = .ok p ∧ p = m.functions.foldl withFunction p₀ ∧ p₀.functions = ∅ ∧
      Evaluated m.globals next p ∧ p.entries = m.entryPoints.filterMap entryOf := by
  obtain ⟨p, hrun, hknows, hsame⟩ := he (m.annotations.filterMap builtInOf).reverse
    { mathImport := (Spirv.Module.mathImports m).getLast? } ⟨rfl, rfl, rfl⟩
  let p₀ : Program := { p with entries := m.entryPoints.filterMap entryOf }
  refine ⟨m.functions.foldl withFunction p₀, p₀, ?_, rfl, hsame, ?_, ?_⟩
  · show (m.globals.foldlM (declare _) _ >>= fun p => m.functions.foldlM define _) = _
    rw [hrun]
    exact defineAll_ok hf p₀
  · rw [foldl_withFunction_same]
    have hext : p.Extends { p₀ with functions := (m.functions.foldl withFunction p₀).functions } :=
      ⟨fun _ _ h => h, fun _ _ h => h, fun _ _ h => h⟩
    exact ⟨fun i hi => (hknows.knows i hi).later hext,
      ⟨hknows.below.types, hknows.below.constants, hknows.below.globals⟩,
      ⟨fun id t ht => hext.sound (hknows.sound.types id t ht), hknows.sound.constants⟩,
      hknows.arrays⟩
  · rw [foldl_withFunction_same]

/-- The names of entry points, whatever their order. -/
theorem mem_entryNames : name ∈ p.entryNames ↔ name ∈ p.entries.map Prod.fst := by
  rw [entryNames, mem_mergeSort, mem_eraseDups]

/-- An entry point whose name always stands for one function. -/
theorem entry?_of_mem (h : (name, id) ∈ p.entries)
    (hsame : ∀ e ∈ p.entries, e.1 = name → e.2 = id) : p.entry? name = some id := by
  unfold entry?
  cases hfind : p.entries.reverse.find? (fun e => e.1 == name) with
  | none =>
    have hnone := List.find?_eq_none.1 hfind (name, id) (mem_reverse.2 h)
    simp at hnone
  | some e =>
    have hname : e.1 = name := by simpa using List.find?_some hfind
    rw [Option.map_some, hsame e (mem_reverse.1 (mem_of_find?_eq_some hfind)) hname]

/-- The entry point of a kernel has the id of the kernel's name. -/
theorem entry?_kernel {fs : List Lir.Function} {idOf : String → Id}
    (h : p.entries = fs.map fun f => (f.name, idOf f.name)) {f : Lir.Function} (hf : f ∈ fs) :
    p.entry? f.name = some (idOf f.name) := by
  refine entry?_of_mem ?_ fun e he hname => ?_
  · rw [h]
    exact mem_map.2 ⟨f, hf, rfl⟩
  · rw [h] at he
    obtain ⟨g, -, rfl⟩ := mem_map.1 he
    exact congrArg idOf hname

end Program

/-- A device builds the bytes of a program for each of its entry points. -/
theorem Operate.build_ok {binary : List UInt8} {words : List UInt32} {p : Program}
    {entry : String} (hbytes : Spirv.wordsOfBytes? binary = some words)
    (hp : Program.ofWords words = .ok p) (hentry : p.entry? entry = some id) :
    build binary entry = .ok (p, id) := by
  rw [build, hbytes]
  dsimp only
  rw [hp]
  dsimp only
  rw [hentry]

end Device

/-! ## Modules as they are read -/

namespace Spirv

/-- How an instruction of a function is read back: the operands of an extended instruction are taken
for ids. -/
def Instruction.asRead (i : Instruction) : Instruction :=
  if i.opcode = .extInst then
    { i with operands := i.operands.map fun
        | .literal n => .ref n
        | operand => operand }
  else i

def Block.asRead (b : Block) : Block := { b with body := b.body.map Instruction.asRead }

def Function.asRead (f : Function) : Function := { f with blocks := f.blocks.map Block.asRead }

def Module.asRead (m : Module) : Module := { m with functions := m.functions.map Function.asRead }

@[simp]
theorem Instruction.asRead_opcode (i : Instruction) : i.asRead.opcode = i.opcode := by
  unfold asRead
  split <;> rfl

@[simp]
theorem Instruction.asRead_result (i : Instruction) : i.asRead.result = i.result := by
  unfold asRead
  split <;> rfl

theorem Instruction.asRead_of_ne {i : Instruction} (h : i.opcode ≠ .extInst) : i.asRead = i :=
  if_neg h

theorem Function.Loadable.asRead {f : Function} (h : f.Loadable) : f.asRead.Loadable where
  definition := h.definition
  params := h.params
  blocks b hb := by
    obtain ⟨b₀, hb₀, rfl⟩ := mem_map.1 hb
    refine ⟨(h.blocks b₀ hb₀).label, fun i hi => ?_⟩
    obtain ⟨i₀, hi₀, rfl⟩ := mem_map.1 hi
    rw [Instruction.asRead_opcode]
    exact (h.blocks b₀ hb₀).body i₀ hi₀

theorem wordOfBytes_bytesOfWord (w : UInt32) :
    wordOfBytes w.toUInt8 (w >>> 8).toUInt8 (w >>> 16).toUInt8 (w >>> 24).toUInt8 = w := by
  have hw := w.toNat_lt
  apply UInt32.toNat_inj.1
  simp only [wordOfBytes, UInt32.toNat_ofNat', UInt32.toNat_toUInt8, UInt32.toNat_shiftRight,
    UInt32.reduceToNat]
  simp only [Nat.reduceMod, Nat.pow_eq]
  omega

theorem wordsOfBytes?_bytesOfWords (ws : List UInt32) :
    wordsOfBytes? (bytesOfWords ws) = some ws := by
  induction ws with
  | nil => rfl
  | cons w ws ih =>
    show (wordsOfBytes? (bytesOfWords ws)).map (wordOfBytes _ _ _ _ :: ·) = _
    rw [ih, wordOfBytes_bytesOfWord]
    rfl

end Spirv

namespace Codegen

open Spirv

/-! ## The functions of a module -/

def Assembler.idOf (a : Assembler) (name : String) : Id :=
  ((a.callees.get? name).map Signature.id).getD 0

variable {a : Assembler} {signature : Signature}

theorem Assembler.idOf_of_get (h : a.callees.get? name = some signature) :
    a.idOf name = signature.id := by
  rw [idOf, h]
  rfl

namespace Assemble

variable {f : Lir.Function} {signature : Signature} {a a' : Assembler} {u : Unit}

/-- A name keeps its id. -/
theorem declare_callees (h : declare f a = .ok signature a') {other : Signature}
    (hc : a.callees.get? name = some other) : a'.callees.get? name = some other := by
  rcases declare_cases h with ⟨-, rfl⟩ | ⟨hnone, -, rfl⟩
  · exact hc
  · exact Table.get?_insert_of_none hnone hc

theorem declare_found (h : declare f a = .ok signature a') :
    a'.callees.get? f.name = some signature := by
  rcases declare_cases h with ⟨hc, rfl⟩ | ⟨-, -, rfl⟩
  · exact hc
  · exact Table.get?_insert_self _ _ _

end Assemble

/-- Functions with different names have different ids. -/
theorem Assembler.Started.callees_apart (h : a.Started) {name' : String} {s s' : Signature}
    (hs : a.callees.get? name = some s) (hs' : a.callees.get? name' = some s') (hid : s.id = s'.id)
    : name = name' := by
  induction h generalizing name name' s s' with
  | header hrun =>
    obtain ⟨-, hempty, -⟩ := Assemble.header_tidy hrun
    rw [hempty] at hs
    cases hs
  | @declare a a' f signature h hrun ih =>
    -- the ids that were given out before lie below the new one
    have hbelow : ∀ {name s}, a.callees.get? name = some s → s.id < a.session.draft.next := by
      intro name s hs
      obtain ⟨o, done, held, ha⟩ := h.tidy
      exact (ha.callees _ (Table.mem_entries_of_get? hs)).has.2
    rcases Assemble.declare_cases hrun with ⟨-, rfl⟩ | ⟨-, hnew, rfl⟩
    · exact ih hs hs' hid
    · rcases Table.get?_insert_cases hs with ⟨rfl, rfl⟩ | hs <;>
        rcases Table.get?_insert_cases hs' with ⟨rfl, rfl⟩ | hs'
      · rfl
      · exact absurd (hid ▸ hnew ▸ hbelow hs') (Nat.lt_irrefl _)
      · exact absurd (hid.symm ▸ hnew ▸ hbelow hs) (Nat.lt_irrefl _)
      · exact ih hs hs' hid
  | define _ _ _ hrun ih =>
    rw [(Assemble.define_leaves hrun).callees] at hs hs'
    exact ih hs hs' hid

namespace Assemble

variable {a a' : Assembler} {u : PUnit} {fs : List Lir.Function}

/-- Declaring functions gives them ids and adds nothing to the module. -/
theorem declares_found (h : a.Started)
    (hrun : (fs.forM fun f => discard (declare f)) a = .ok u a') :
    a'.Started ∧ (∀ f ∈ fs, ∃ s, a'.callees.get? f.name = some s) ∧
      (∀ name s, a.callees.get? name = some s → a'.callees.get? name = some s) ∧
      a'.session.draft.module = a.session.draft.module ∧ a'.kernels = a.kernels ∧
      a'.settings = a.settings := by
  induction fs generalizing a with
  | nil =>
    obtain ⟨_, rfl⟩ := pure_ok.1 hrun
    exact ⟨h, forall_mem_nil _, fun _ _ hs => hs, rfl, rfl, rfl⟩
  | cons f fs ih =>
    obtain ⟨_, a₁, hfirst, hrest⟩ := bind_ok.1 hrun
    obtain ⟨signature, a₂, hdeclare, hunit⟩ := bind_ok.1 hfirst
    obtain ⟨_, rfl⟩ := pure_ok.1 hunit
    obtain ⟨hstarted, hfound, hlater, hmodule, hkernels, hsettings⟩ :=
      ih (.declare h hdeclare) hrest
    have hsame : a₂.session.draft.module = a.session.draft.module ∧ a₂.kernels = a.kernels ∧
        a₂.settings = a.settings := by
      rcases declare_cases hdeclare with ⟨-, rfl⟩ | ⟨-, -, rfl⟩
      · exact ⟨rfl, rfl, rfl⟩
      · exact ⟨rfl, rfl, rfl⟩
    refine ⟨hstarted, ?_, fun name s hs => hlater name s (declare_callees hdeclare hs),
      hmodule.trans hsame.1, hkernels.trans hsame.2.1, hsettings.trans hsame.2.2⟩
    exact forall_mem_cons.2 ⟨⟨signature, hlater _ _ (declare_found hdeclare)⟩, hfound⟩

/-- A function that is declared already is only defined. -/
theorem function_found {f : Lir.Function} {u : Unit} (h : a.Started)
    (hc : a.callees.get? f.name = some signature) (hrun : function f a = .ok u a') :
    ∃ entry, f.entry? = some entry ∧ define f entry signature a = .ok u a' := by
  obtain ⟨entry, signature', a₁, hentry, hdeclare, hdefine⟩ := function_ok h.stage hrun
  rcases declare_cases hdeclare with ⟨hc', rfl⟩ | ⟨hnone, -, -⟩
  · rw [hc] at hc'
    cases hc'
    exact ⟨entry, hentry, hdefine⟩
  · rw [hc] at hnone
    cases hnone

end Assemble

/-- The code of a function, under names that the assembler still sees. -/
def Assembler.Emitted (a : Assembler) (f : Lir.Function) (e : Function) : Prop :=
  ∃ n l, n.scope.function = f ∧ n.scope.settings = a.settings ∧ n.session.Sees a.session ∧
    Owned n (a.idOf f.name) l e

variable {f : Lir.Function} {a' : Assembler} {e : Function}

theorem Assembler.Emitted.later
    (h : a.Emitted f e) (hc : a'.callees = a.callees) (hs : a'.settings = a.settings)
    (hsees : a.session.Sees a'.session) : a'.Emitted f e := by
  obtain ⟨n, l, hf, hsettings, hn, howned⟩ := h
  refine ⟨n, l, hf, hsettings.trans hs.symm, hn.trans hsees, ?_⟩
  rw [idOf, hc]
  exact howned

/-- A function whose blocks and values are told apart becomes its code. -/
theorem Assembler.Started.emitted {entry : Lir.BlockId}
    {u : Unit} (h : a.Started) (hc : a.callees.get? f.name = some signature)
    (hentry : f.entry? = some entry) (hrun : Assemble.define f entry signature a = .ok u a')
    (hd : f.Distinct)
    (he : a'.session.draft.module.functions = a.session.draft.module.functions ++ [e]) :
    a'.Emitted f e := by
  obtain ⟨target, l, e', he', hcode⟩ := Assemble.define_lays hentry hd.assigned hrun
  rw [he] at he'
  cases append_cancel_left he'
  have hl := Assemble.define_leaves hrun
  have hid : a'.idOf f.name = signature.id := by
    rw [idOf, hl.callees]
    exact idOf_of_get hc
  refine ⟨⟨⟨a.settings, f, a.builtins, a.callees, target⟩, a'.session, a'.symbols⟩, l, rfl,
    hl.settings.symm, .refl _, ?_⟩
  rw [hid]
  exact ⟨hcode, Assemble.define_apart h hentry hc hd.blocks hrun hcode.id he,
    (Started.define h hentry hc hrun).loads.declares⟩

/-- What assembling declared functions adds to a module, function by function. -/
structure Assembler.Emits (fs : List Lir.Function) (a a' : Assembler) : Prop where
  callees : a'.callees = a.callees
  builtins : a'.builtins = a.builtins
  settings : a'.settings = a.settings
  sees : a.session.Sees a'.session
  functions : ∃ es, a'.session.draft.module.functions = a.session.draft.module.functions ++ es ∧
    es.map (·.definition.result) = (fs.map fun f => some (a.idOf f.name)) ∧
    ∀ (i : Nat) f e, fs[i]? = some f → es[i]? = some e → f.Distinct → a'.Emitted f e
  entryPoints : a'.session.draft.module.entryPoints = a.session.draft.module.entryPoints ++
    fs.flatMap fun f => entryPointOf f (a.idOf f.name) a.builtins
  kernels : a'.kernels = a.kernels ++
    (fs.filter Lir.Function.isKernel).map fun f => (f.name, a.idOf f.name)

namespace Assemble

variable {a a' : Assembler} {u : PUnit} {fs : List Lir.Function}

/-- Functions are emitted in their order. -/
theorem functions_emit (h : a.Started) (hfound : ∀ f ∈ fs, ∃ s, a.callees.get? f.name = some s)
    (hrun : fs.forM function a = .ok u a') : a'.Started ∧ a.Emits fs a' := by
  induction fs generalizing a with
  | nil =>
    obtain ⟨_, rfl⟩ := pure_ok.1 hrun
    exact ⟨h, rfl, rfl, rfl, .refl _, ⟨[], by simp, rfl, by simp⟩, by simp, by simp⟩
  | cons f fs ih =>
    obtain ⟨_, a₁, hfirst, hrest⟩ := bind_ok.1 hrun
    obtain ⟨⟨signature, hc⟩, hfound⟩ := forall_mem_cons.1 hfound
    obtain ⟨entry, hentry, hdefine⟩ := function_found h hc hfirst
    have hl := define_leaves hdefine
    rw [← hl.callees] at hfound
    obtain ⟨hstarted, he⟩ := ih (.define h hentry hc hdefine) hfound hrest
    have hid : ∀ name, a₁.idOf name = a.idOf name := fun name => by
      rw [Assembler.idOf, Assembler.idOf, hl.callees]
    have hself := Assembler.idOf_of_get hc
    obtain ⟨e, hdefinition, hfunctions⟩ := hl.functions
    obtain ⟨es, hes, hids, hemitted⟩ := he.functions
    refine ⟨hstarted, he.callees.trans hl.callees, he.builtins.trans hl.builtins,
      he.settings.trans hl.settings, hl.grows.toSees.trans he.sees,
      ⟨e :: es, by rw [hes, hfunctions, append_assoc]; rfl, ?_, fun i g e' hg he' hd => ?_⟩,
      ?_, ?_⟩
    · simp only [hid] at hids
      rw [map_cons, map_cons, hdefinition, hids, hself]
    · cases i with
      | zero =>
        cases hg
        cases he'
        exact (h.emitted hc hentry hdefine hd hfunctions).later he.callees he.settings he.sees
      | succ i => exact hemitted i g e' hg he' hd
    · rw [he.entryPoints, hl.entryPoints, flatMap_cons, append_assoc, hself, hl.builtins]
      simp only [hid]
    · rw [he.kernels, hl.kernels, append_assoc, filter_cons]
      simp only [hid]
      split
      · rw [map_cons, hself]
        rfl
      · rfl

theorem finish_ok {binary : Binary} (h : finish a = .ok binary a') (ha : a.session.Loads) :
    a'.session.Loads ∧ a'.callees = a.callees ∧ a'.builtins = a.builtins ∧
      a'.settings = a.settings ∧ a.session.Sees a'.session ∧
      a'.session.draft.module.functions = a.session.draft.module.functions ∧
      a'.session.draft.module.entryPoints = a.session.draft.module.entryPoints ∧
      binary.words = a'.session.words ∧ binary.entryPoints = a.kernels.map Prod.fst := by
  obtain ⟨-, ha', rfl⟩ := finish_cases h
  have hgrows : a.session.Grows a'.session := by
    rw [ha']
    exact .withDraft (List.Subset.refl _)
  subst ha'
  exact ⟨⟨⟨ha.block, ha.function, ha.functions⟩, hgrows.declares ha.declares, ha.evaluates⟩, rfl,
    rfl, rfl, hgrows.toSees, rfl, rfl, rfl, rfl⟩

end Assemble

variable {settings : CodegenSettings}

variable {target : Target}

/-- The header emits no function and no entry point, and keeps the settings. -/
theorem Assemble.header_empty {u : Unit}
    (h : header (Assembler.new name target settings) = .ok u a) :
    a.session.draft.module.functions = [] ∧ a.session.draft.module.entryPoints = [] ∧
      a.kernels = [] ∧ a.settings = settings := by
  obtain ⟨builtins, session, hsession, rfl⟩ := header_cases h
  have houtside := Build.declareBuiltins_outside hsession
  exact ⟨houtside.functions, houtside.entryPoints, rfl, rfl⟩

/-- What an assembler holds at the end of a module. -/
structure Assembler.Completed (m : Lir.Module) (settings : CodegenSettings) (binary : Binary)
    (a : Assembler) : Prop where
  settings : a.settings = settings
  loads : a.session.Loads
  words : binary.words = a.session.words
  functions : a.session.draft.module.functions.map (·.definition.result) =
    m.functions.map fun f => some (a.idOf f.name)
  entryPoints : a.session.draft.module.entryPoints =
    m.functions.flatMap fun f => entryPointOf f (a.idOf f.name) a.builtins
  names : binary.entryPoints = (m.functions.filter Lir.Function.isKernel).map Lir.Function.name
  apart : ∀ f ∈ m.functions, ∀ g ∈ m.functions, a.idOf f.name = a.idOf g.name → f.name = g.name
  code : ∀ (i : Nat) f e, m.functions[i]? = some f →
    a.session.draft.module.functions[i]? = some e → f.Distinct → a.Emitted f e
  typed : ∀ i ∈ a.session.draft.instructions, ∀ type ∈ i.resultType,
    type ∉ arrayTypes a.session.draft.instructions
  started : ∃ a₀ : Assembler, a₀.Started ∧ Assemble.finish a₀ = .ok binary a

/-- Assembling a module leads there. -/
theorem Assemble.wholeModule_completed {m : Lir.Module} {binary : Binary}
    (h : wholeModule m (Assembler.new m.name target settings) = .ok binary a) :
    a.Completed m settings binary := by
  obtain ⟨_, a₁, hheader, h⟩ := bind_ok.1 h
  obtain ⟨_, a₂, hdeclares, h⟩ := bind_ok.1 h
  obtain ⟨_, a₃, hfunctions, hfinish⟩ := bind_ok.1 h
  obtain ⟨hstarted₂, hfound, -, hmodule, hkernels, hsettings₂⟩ :=
    declares_found (.header hheader) hdeclares
  obtain ⟨hstarted₃, he⟩ := functions_emit hstarted₂ hfound hfunctions
  obtain ⟨hloads, hcallees, hbuiltins, hsettings, hsees, hfs, hentries, hwords, hnames⟩ :=
    finish_ok hfinish hstarted₃.loads
  have hid : ∀ name, a.idOf name = a₂.idOf name := fun name => by
    rw [Assembler.idOf, Assembler.idOf, hcallees, he.callees]
  have hempty := header_empty hheader
  obtain ⟨es, hes, hids, hemitted⟩ := he.functions
  obtain ⟨o, done, held, htidy⟩ := hstarted₃.tidy
  refine ⟨?_, hloads, hwords, ?_, ?_, ?_, ?_, ?_, fun i hi type htype => ?_, a₃, hstarted₃, hfinish⟩
  · rw [hsettings, he.settings, hsettings₂, hempty.2.2.2]
  · simp only [hid]
    rw [hfs, hes, hmodule, hempty.1, nil_append, hids]
  · simp only [hid]
    rw [hentries, he.entryPoints, hmodule, hempty.2.1, nil_append, hbuiltins, he.builtins]
  · rw [hnames, he.kernels, hkernels, hempty.2.2.1, nil_append, map_map]
    rfl
  · intro f hf g hg heq
    obtain ⟨s, hs⟩ := hfound f hf
    obtain ⟨s', hs'⟩ := hfound g hg
    rw [hid, hid, Assembler.idOf_of_get hs, Assembler.idOf_of_get hs'] at heq
    exact hstarted₂.callees_apart hs hs' heq
  · intro i f e hf hget hd
    rw [hfs, hes, hmodule, hempty.1] at hget
    exact (hemitted i f e hf hget hd).later hcallees hsettings hsees
  · exact ((finish_tidy htidy hfinish).1.session.typed i hi type htype).plain

end Codegen

end KernelForge
