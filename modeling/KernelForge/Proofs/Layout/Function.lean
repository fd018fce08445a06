import KernelForge.Proofs.Layout.Block
import KernelForge.Proofs.Ledger.Module

/-!
# The instructions of functions

What a function becomes: a first block that declares storage and binds the parameters, its blocks,
and the block void returns lead to. `BodyCode` tells it under the names at the end of the function.
-/

namespace KernelForge

open List

namespace Codegen

open Lir (Kind ValueId BlockId ArrayId)
open Spirv

/-! ## Storage -/

/-- A variable of a function with a type of pointers. -/
def localVar (pointer id : Id) : Instruction :=
  ⟨.variableDecl, some pointer, some id, [.enumerant .storageClass StorageClass.function]⟩

/-- Variables of private arrays, and the names of the arrays. -/
inductive ArraysCode (s : Session) :
    List Lir.ArrayDecl → List (ArrayId × ArraySlot) → List Instruction → Prop
  | nil : ArraysCode s [] [] []
  | cons {a : Lir.ArrayDecl} {as : List Lir.ArrayDecl} {slots : List (ArrayId × ArraySlot)}
      {c : List Instruction} {type pointer id : Id}
      (ht : s.arrays.get? (a.element.storage, a.length) = some type)
      (hp : s.pointers.get? (type, StorageClass.function) = some pointer)
      (hs : ArraysCode s as slots c) :
      ArraysCode s (a :: as) ((a.id, ⟨id, a.element, a.length, .perItem⟩) :: slots)
        (localVar pointer id :: c)

inductive SlotsCode (s : Session) :
    List (ValueId × Kind) → List (ValueId × Id) → List Instruction → Prop
  | nil : SlotsCode s [] [] []
  | cons {v : ValueId} {k : Kind} {values : List (ValueId × Kind)} {slots : List (ValueId × Id)}
      {c : List Instruction} {type pointer id : Id} (ht : s.types.get? k = some type)
      (hp : s.pointers.get? (type, StorageClass.function) = some pointer)
      (hs : SlotsCode s values slots c) :
      SlotsCode s ((v, k) :: values) ((v, id) :: slots) (localVar pointer id :: c)

/-- The storage of a function; `base` are the arrays that exist before it. -/
structure StorageCode (n : Names) (base : Table ArrayId ArraySlot) (c : List Instruction) :
    Prop where
  intro ::
  code : ∃ arrays slots ca cs, c = ca ++ cs ∧
    ArraysCode n.session (n.scope.function.arrays.filter fun a => a.region == .perItem) arrays ca ∧
    n.symbols.arrays = base.insertAll arrays ∧
    SlotsCode n.session
      (if n.scope.settings.optimizeLoadStore then [] else n.scope.function.values) slots cs ∧
    n.symbols.slots = (∅ : Table ValueId Id).insertAll slots

variable {entry : BlockId} {as : List Lir.ArrayDecl} {n n' : Names} {c : List Instruction}
  {slots : List (ArrayId × ArraySlot)} {values : List (ValueId × Kind)} {l : FunctionLayout}
  {base : Table ArrayId ArraySlot}

section Later

variable {s s' : Session} (h : s.Sees s')

include h

theorem ArraysCode.later (ha : ArraysCode s as slots c) : ArraysCode s' as slots c := by
  induction ha with
  | nil => exact .nil
  | cons ht hp _ ih => exact .cons (h.arrays _ _ ht) (h.pointers _ _ hp) ih

theorem SlotsCode.later {slots : List (ValueId × Id)} (ha : SlotsCode s values slots c) :
    SlotsCode s' values slots c := by
  induction ha with
  | nil => exact .nil
  | cons ht hp _ ih => exact .cons (h.types _ _ ht) (h.pointers _ _ hp) ih

end Later

theorem StorageCode.later (h : n.Sees n') (hs : StorageCode n base c) : StorageCode n' base c := by
  obtain ⟨arrays, slots, ca, cs, hc, ha, harrays, hslots, hs⟩ := hs.code
  refine ⟨arrays, slots, ca, cs, hc, ?_, by rw [h.symbols.arrays, harrays], ?_,
    by rw [h.symbols.slots, hs]⟩
  · rw [h.scope]
    exact ha.later h.session
  · rw [h.scope]
    exact hslots.later h.session

namespace Emit

variable {scope : Scope} {b b' : Body} {u : Unit}

theorem localVariable_ok {pointer id : Id} {s s' : Session}
    (h : Build.localVariable pointer s = .ok id s') : s.Adds [localVar pointer id] s' :=
  Build.emit_ok h

theorem privateArrays_ok (h : (as.forM privateArray) scope b = .ok u b') :
    ∃ slots c, b.session.Adds c b'.session ∧ ArraysCode b'.session as slots c ∧
      b'.symbols = { b.symbols with arrays := b.symbols.arrays.insertAll slots } := by
  induction as generalizing b with
  | nil =>
    obtain ⟨_, rfl⟩ := pure_ok.1 h
    exact ⟨[], [], .refl _, .nil, rfl⟩
  | cons a as ih =>
    obtain ⟨_, b₁, hfirst, h⟩ := bind_ok.1 h
    obtain ⟨type, _, harray, hfirst⟩ := build_bind_ok hfirst
    obtain ⟨pointer, _, hpointer, hfirst⟩ := build_bind_ok hfirst
    obtain ⟨id, _, hvariable, hfirst⟩ := build_bind_ok hfirst
    cases modify_ok.1 hfirst
    obtain ⟨ha₂, htype⟩ := Build.arrayOf_ok harray
    obtain ⟨ha₃, hptr⟩ := Build.pointerToType_ok hpointer
    have ha₄ := localVariable_ok hvariable
    obtain ⟨slots, c, hadds, hcode, hsym⟩ := ih h
    have htype := ((ha₃.trans ha₄).trans hadds).arrays _ _ htype
    have hptr := (ha₄.trans hadds).pointers _ _ hptr
    have hall := ((ha₂.trans ha₃).trans ha₄).trans hadds
    refine ⟨_, localVar pointer id :: c, by simpa using hall, .cons htype hptr hcode, ?_⟩
    rw [hsym]
    rfl

theorem valueSlots_ok (h : (values.forM fun e => valueSlot e.1 e.2) scope b = .ok u b') :
    ∃ slots c, b.session.Adds c b'.session ∧ SlotsCode b'.session values slots c ∧
      b'.symbols = { b.symbols with slots := b.symbols.slots.insertAll slots } := by
  induction values generalizing b with
  | nil =>
    obtain ⟨_, rfl⟩ := pure_ok.1 h
    exact ⟨[], [], .refl _, .nil, rfl⟩
  | cons e values ih =>
    obtain ⟨_, b₁, hfirst, h⟩ := bind_ok.1 h
    obtain ⟨pointer, _, hpointer, hfirst⟩ := build_bind_ok hfirst
    obtain ⟨id, _, hvariable, hfirst⟩ := build_bind_ok hfirst
    obtain ⟨_, b₄, hname, hfirst⟩ := bind_ok.1 hfirst
    cases modify_ok.1 hfirst
    obtain ⟨ha₄, hs₄⟩ := debugName_ok hname
    obtain ⟨ha₂, type, htype, hptr⟩ := Build.pointerTo_ok hpointer
    have ha₃ := localVariable_ok hvariable
    obtain ⟨slots, c, hadds, hcode, hsym⟩ := ih h
    have htype := ((ha₃.trans ha₄).trans hadds).types _ _ htype
    have hptr := ((ha₃.trans ha₄).trans hadds).pointers _ _ hptr
    have hall := ((ha₂.trans ha₃).trans ha₄).trans hadds
    refine ⟨_, localVar pointer id :: c, by simpa using hall, .cons htype hptr hcode, ?_⟩
    rw [hsym, hs₄]
    rfl

/-- The storage of a function, whose names are the arrays that exist before it. -/
theorem privateStorage_ok {base : Table ArrayId ArraySlot} (hb : b.symbols = { arrays := base })
    (h : privateStorage scope b = .ok u b') :
    ∃ c, b.session.Adds c b'.session ∧ StorageCode (b'.names scope) base c ∧
      b'.symbols.values = ∅ ∧ b'.symbols.reserved = ∅ := by
  obtain ⟨_, b₁, harrays, h⟩ := bind_ok.1 h
  obtain ⟨arrays, ca, hadds, hcode, hsym⟩ := privateArrays_ok harrays
  rw [hb] at hsym
  have hslots : ∃ slots cs, b₁.session.Adds cs b'.session ∧ SlotsCode b'.session
      (if scope.settings.optimizeLoadStore then [] else scope.function.values) slots cs ∧
      b'.symbols = { b₁.symbols with slots := b₁.symbols.slots.insertAll slots } := by
    cases hs : scope.settings.optimizeLoadStore with
    | true =>
      simp only [spilling, bind_apply, read_apply, pure_bind, hs] at h
      obtain ⟨_, rfl⟩ := pure_ok.1 h
      exact ⟨[], [], .refl _, .nil, rfl⟩
    | false =>
      simp only [spilling, bind_apply, read_apply, pure_bind, hs] at h
      exact valueSlots_ok h
  obtain ⟨slots, cs, hadds', hcode', hsym'⟩ := hslots
  rw [hsym] at hsym'
  refine ⟨ca ++ cs, hadds.trans hadds', ⟨arrays, slots, ca, cs, rfl, hcode.later hadds'.toSees, ?_,
    hcode', ?_⟩, ?_⟩
  · show b'.symbols.arrays = _
    rw [hsym']
  · show b'.symbols.slots = _
    rw [hsym']
  · rw [hsym']
    exact ⟨rfl, rfl⟩

end Emit

/-! ## Bodies -/

inductive BlocksCode (n : Names) : List Lir.Block → List BlockLayout → Prop
  | nil : BlocksCode n [] []
  | cons {b : Lir.Block} {bs : List Lir.Block} {l : BlockLayout} {ls : List BlockLayout}
      (hb : BlockCode n b l) (hs : BlocksCode n bs ls) : BlocksCode n (b :: bs) (l :: ls)

/-- The block void returns lead to. -/
def Scope.leaving (scope : Scope) : List Block :=
  match scope.returnBlock with
  | none => []
  | some id => [⟨⟨.label, none, some id, []⟩, [⟨.returnVoid, none, none, []⟩]⟩]

/-- The parts of the instructions of a function. -/
structure FunctionLayout where
  /-- Types and ids of the parameters. -/
  params : List (Id × Id)
  /-- The label of the first block. -/
  first : Id
  storage : List Instruction
  /-- The instructions that bind the parameters. -/
  binding : List Instruction
  /-- The label of the entry. -/
  entry : Id
  blocks : List BlockLayout

namespace FunctionLayout

/-- The instructions of the first block: storage, parameters, and the way to the entry. -/
def prologue (l : FunctionLayout) : List Instruction :=
  l.storage ++ l.binding ++ [⟨.branch, none, none, [.ref l.entry]⟩]

/-- The emitted blocks, without those of the surroundings. -/
def emitted (l : FunctionLayout) : List Block :=
  ⟨⟨.label, none, some l.first, []⟩, l.prologue⟩ :: l.blocks.map BlockLayout.block

end FunctionLayout

/-- The first block of a function. -/
structure PrologueCode (n : Names) (base : Table ArrayId ArraySlot) (entry : BlockId)
    (l : FunctionLayout) : Prop where
  storage : StorageCode n base l.storage
  binding : ∃ u ids, SelectionCode n (l.params.map Prod.snd) Select.params l.binding u ids
  entry : n.symbols.labels.get? entry = some l.entry

theorem BlocksCode.later (h : n.Sees n') {bs : List Lir.Block}
    {ls : List BlockLayout} (hb : BlocksCode n bs ls) : BlocksCode n' bs ls := by
  induction hb with
  | nil => exact .nil
  | cons hb _ ih => exact .cons (hb.later h) ih

theorem PrologueCode.later (h : n.Sees n') (hp : PrologueCode n base entry l) :
    PrologueCode n' base entry l := by
  obtain ⟨u, ids, hb⟩ := hp.binding
  exact ⟨hp.storage.later h, ⟨u, ids, hb.later h⟩, h.symbols.labels _ _ hp.entry⟩

/-- What the body of a function becomes. -/
structure BodyCode (n : Names) (base : Table ArrayId ArraySlot) (entry : BlockId)
    (l : FunctionLayout) : Prop where
  prologue : PrologueCode n base entry l
  blocks : BlocksCode n n.scope.function.blocks l.blocks
  told : ∃ defined, n.symbols.Told defined ∧
    ∀ v, v ∈ defined ↔ v ∈ n.scope.function.paramVars ∨
      ∃ b ∈ n.scope.function.blocks, v ∈ Lir.defs b.ops
  settled : ∀ v, n.symbols.reserved.get? v = none

theorem BodyCode.later (h : n.Sees n') (hs : n'.symbols = n.symbols)
    (hb : BodyCode n base entry l) : BodyCode n' base entry l where
  prologue := hb.prologue.later h
  blocks := by
    rw [h.scope]
    exact hb.blocks.later h
  told := by
    rw [h.scope, hs]
    exact hb.told
  settled := by
    rw [hs]
    exact hb.settled

namespace Emit

variable {scope : Scope} {b b' : Body} {u : Unit} {defined : List ValueId}

variable {base : Table ArrayId ArraySlot} {params : List (Id × Id)} {ordinal : Nat} {first : Id}

theorem prologue_ok (hb : b.symbols = { arrays := base })
    (ho : b.session.draft.block = some ⟨⟨.label, none, some first, []⟩, []⟩)
    (hnodup : scope.function.paramVars.Nodup)
    (h : prologue entry (params.map Prod.snd) scope b = .ok u b') :
    ∃ storage binding id, let l : FunctionLayout := ⟨params, first, storage, binding, id, []⟩
      Body.Lays l.emitted ⟨b.session, b'.symbols⟩ b' ∧
      b'.symbols.Told (scope.function.paramVars.reverse ++ []) ∧
      PrologueCode (b'.names scope) base entry l := by
  simp only [prologue, bind_apply] at h
  obtain ⟨_, b₁, hstorage, h⟩ := bind_ok.1 h
  obtain ⟨⟨u', ids⟩, b₂, hparams, h⟩ := bind_ok.1 h
  obtain ⟨id, b₃, hlabel, h⟩ := bind_ok.1 h
  obtain ⟨storage, hadds, hstore, hvalues, hreserved⟩ := privateStorage_ok hb hstorage
  have ht₁ : b₁.symbols.Told [] := by
    refine ⟨?_, fun v => ?_, by simp⟩
    · rw [hreserved]
      exact nodup_nil
    · rw [hvalues]
      simp [Table.get?, EmptyCollection.emptyCollection, Table.empty, Table.find]
  have hw : ∀ a r,
    Select.params (b₁.names scope).view ⟨[], (params.map Prod.snd).length⟩ = .ok a r →
      r.lines.flatMap Line.defs = scope.function.paramVars := by
    intro a r hr
    obtain ⟨ls, hlines, _, hdefs, _⟩ := Select.params_ok hr
    rw [hlines, nil_append, hdefs]
    rfl
  obtain ⟨c, he₂, ht₂, hcode⟩ := recipe_ok ht₁ ⟨hnodup, by simp⟩ hw hparams
  obtain ⟨he₃, ht₃, hl₃⟩ := label_told ht₂ hlabel
  have hcloses := terminate_ok rfl h
  have hemits : Body.Emits (storage ++ c) ⟨b.session, b₁.symbols⟩ b₃ := by
    have hfirst : Body.Emits storage ⟨b.session, b₁.symbols⟩ b₁ := ⟨hadds, Symbols.Sees.refl _⟩
    have := (hfirst.trans he₂).trans he₃
    simpa using this
  obtain ⟨hgrows, hsees, hfunction, hclosed, hfunctions⟩ := hcloses.lays ho hemits
  have hnames := (he₂.trans he₃).names scope |>.trans (hcloses.names scope)
  refine ⟨storage, c, id, ⟨hgrows, Symbols.Sees.refl _, hfunction, hclosed, hfunctions⟩, ?_,
    hstore.later hnames, ⟨u', ids, hcode.later ((he₃.names scope).trans (hcloses.names scope))⟩, ?_⟩
  · rw [hcloses.symbols]
    exact ht₃
  · rw [Body.names, hcloses.symbols]
    exact hl₃

theorem blocks_ok {blocks : List Lir.Block} (ht : b.symbols.Told defined)
    (hshut : b.session.draft.block = none)
    (hnew : NewValues (blocks.flatMap fun b => Lir.defs b.ops) defined)
    (h : (blocks.forM (Emit.block ordinal)) scope b = .ok u b') :
    ∃ ls, b.Lays (ls.map BlockLayout.block) b' ∧
      b'.symbols.Told ((blocks.flatMap fun b => Lir.defs b.ops).reverse ++ defined) ∧
      BlocksCode (b'.names scope) blocks ls := by
  induction blocks generalizing b defined with
  | nil =>
    obtain ⟨_, rfl⟩ := pure_ok.1 h
    exact ⟨[], .refl hshut, ht, .nil⟩
  | cons block blocks ih =>
    obtain ⟨_, b₁, hfirst, h⟩ := bind_ok.1 h
    rw [flatMap_cons] at hnew ⊢
    obtain ⟨l, hlays, htold, hcode⟩ := block_ok ht hnew.left hfirst
    obtain ⟨ls, hlays', htold', hcodes⟩ :=
      ih htold hlays.closed (hnew.right fun _ => mem_reverse.1) h
    refine ⟨l :: ls, hlays.trans hlays', ?_, .cons (hcode.later (hlays'.names scope)) hcodes⟩
    rw [reverse_append, append_assoc]
    exact htold'

theorem returnBlock_ok (hshut : b.session.draft.block = none) (h : returnBlock scope b = .ok u b') :
    b.Lays scope.leaving b' ∧ b'.symbols = b.symbols := by
  simp only [returnBlock, bind_apply, read_apply, pure_bind] at h
  unfold Scope.leaving
  cases hr : scope.returnBlock with
  | none =>
    simp only [hr] at h
    obtain ⟨_, rfl⟩ := pure_ok.1 h
    exact ⟨.refl hshut, rfl⟩
  | some id =>
    simp only [hr] at h
    obtain ⟨_, b₁, hopen, h⟩ := bind_ok.1 h
    obtain ⟨hs₁, hsession⟩ := openBlock_ok hopen
    have hcloses := terminate_ok rfl h
    have hopened : b₁.session.draft.block = some ⟨⟨.label, none, some id, []⟩, []⟩ := by
      rw [hsession]
    obtain ⟨hgrows, hsees, hfunction, hclosed, hfunctions⟩ := hcloses.lays hopened (.refl b₁)
    have hgrows₁ : b.session.Grows b₁.session := by
      rw [hsession]
      exact .withDraft (List.Subset.refl _)
    rw [hs₁] at hsees
    rw [hsession] at hfunction hfunctions
    exact ⟨⟨hgrows₁.trans hgrows, hsees, hfunction, hclosed, hfunctions⟩, hcloses.symbols.trans hs₁⟩

/-- The body of a function becomes its blocks. -/
theorem body_ok (hb : b.symbols = { arrays := base })
    (ho : b.session.draft.block = some ⟨⟨.label, none, some first, []⟩, []⟩)
    (hssa :
      (scope.function.paramVars ++ scope.function.blocks.flatMap fun b => Lir.defs b.ops).Nodup)
    (h : body ordinal entry (params.map Prod.snd) scope b = .ok u b') :
    ∃ l : FunctionLayout, l.params = params ∧
      Body.Lays (l.emitted ++ scope.leaving) ⟨b.session, b'.symbols⟩ b' ∧
      BodyCode (b'.names scope) base entry l := by
  have hnew : NewValues _ [] := ⟨hssa, fun _ _ => not_mem_nil⟩
  obtain ⟨b₁, b₂, hprologue, hlay, hreturn, hnil⟩ := body_cases h
  have hsettled : ∀ v, b'.symbols.reserved.get? v = none := fun v => by
    rw [Table.get?, hnil]
    rfl
  obtain ⟨storage, binding, id, hl₁, ht₁, hcode₁⟩ := prologue_ok hb ho hnew.left.nodup hprologue
  obtain ⟨ls, hl₂, ht₂, hcode₂⟩ := blocks_ok ht₁ hl₁.closed (hnew.right fun _ => mem_reverse.1) hlay
  obtain ⟨hl₃, hs₃⟩ := returnBlock_ok hl₂.closed hreturn
  have hall := (hl₁.trans hl₂).trans hl₃
  have hsame : Symbols.Sees b'.symbols b'.symbols := Symbols.Sees.refl _
  have hcode₁' := hcode₁.later ((hl₂.trans hl₃).names scope)
  rw [← hs₃] at ht₂
  refine ⟨⟨params, first, storage, binding, id, ls⟩, rfl, { hall with symbols := hsame },
    ⟨hcode₁'.storage, hcode₁'.binding, hcode₁'.entry⟩, hcode₂.later (hl₃.names scope),
    ⟨_, ht₂, fun v => ?_⟩, hsettled⟩
  rw [append_nil, mem_append, mem_reverse, mem_reverse, mem_flatMap]
  exact Or.comm

end Emit

/-! ## Functions -/

/-- Variables of workgroup arrays among the globals, and the names of the arrays. -/
inductive GroupsCode (s : Session) :
    List Lir.ArrayDecl → List (ArrayId × ArraySlot) → Prop
  | nil : GroupsCode s [] []
  | cons {a : Lir.ArrayDecl} {as : List Lir.ArrayDecl} {slots : List (ArrayId × ArraySlot)}
      {type pointer id : Id} (ht : s.arrays.get? (a.element.storage, a.length) = some type)
      (hp : s.pointers.get? (type, StorageClass.workgroup) = some pointer)
      (hg : ⟨.variableDecl, some pointer, some id,
        [.enumerant .storageClass StorageClass.workgroup]⟩ ∈ s.draft.module.globals)
      (hs : GroupsCode s as slots) :
      GroupsCode s (a :: as) ((a.id, ⟨id, a.element, a.length, .perGroup⟩) :: slots)

/-- Types of the parameters of an emitted function. -/
inductive ShapeCode (s : Session) (f : Lir.Function) : List Id → Prop
  | kernel {byte bytePtr long : Id} (hr : f.role = .kernel) (hb : s.types.get? .i8 = some byte)
      (hp : s.pointers.get? (byte, StorageClass.crossWorkgroup) = some bytePtr)
      (hl : s.types.get? .i64 = some long) : ShapeCode s f [bytePtr, long]
  | device {types : List Id} (hr : f.role = .device)
      (ht : f.params.mapM (fun p => s.types.get? p.kind) = some types) : ShapeCode s f types

def paramOf (e : Id × Id) : Instruction := ⟨.functionParameter, some e.1, some e.2, []⟩

/-- What a function becomes. -/
structure FunctionCode (n : Names) (id : Id) (l : FunctionLayout) (e : Function) : Prop where
  id : e.definition.result = some id
  params : e.params = l.params.map paramOf
  blocks : e.blocks = l.emitted ++ n.scope.leaving
  shape : ShapeCode n.session n.scope.function (l.params.map Prod.fst)
  code : ∃ entry slots, n.scope.function.entry? = some entry ∧
    GroupsCode n.session (n.scope.function.arrays.filter fun a => a.region == .perGroup) slots ∧
    BodyCode n ((∅ : Table ArrayId ArraySlot).insertAll slots) entry l

theorem GroupsCode.later {s s' : Session} (h : s.Sees s') (hg : GroupsCode s as slots) :
    GroupsCode s' as slots := by
  induction hg with
  | nil => exact .nil
  | cons ht hp hg _ ih => exact .cons (h.arrays _ _ ht) (h.pointers _ _ hp) (h.globals hg) ih

theorem ShapeCode.later {s s' : Session} (h : s.Sees s') {f : Lir.Function} {types : List Id}
    (hs : ShapeCode s f types) : ShapeCode s' f types := by
  cases hs with
  | kernel hr hb hp hl =>
    exact .kernel hr (h.types _ _ hb) (h.pointers _ _ hp) (h.types _ _ hl)
  | device hr ht => exact .device hr (mapM_some_of (fun _ _ hk => h.types _ _ hk) ht)

/-- A step outside of functions. -/
structure Session.Outside (s s' : Session) : Prop extends s.Grows s' where
  function : s'.draft.function = s.draft.function
  block : s'.draft.block = s.draft.block
  functions : s'.draft.module.functions = s.draft.module.functions
  entryPoints : s'.draft.module.entryPoints = s.draft.module.entryPoints

namespace Session.Outside

variable {s s' s'' : Session}

theorem trans (h : s.Outside s') (h' : s'.Outside s'') : s.Outside s'' where
  toGrows := h.toGrows.trans h'.toGrows
  function := h'.function.trans h.function
  block := h'.block.trans h.block
  functions := h'.functions.trans h.functions
  entryPoints := h'.entryPoints.trans h.entryPoints

theorem ofAdds (h : s.Adds [] s') : s.Outside s' where
  toGrows := h.toGrows
  function := h.draft.function
  block := by
    rw [h.draft.block]
    cases s.draft.block <;> simp
  functions := h.draft.functions
  entryPoints := h.draft.entryPoints

theorem refl (s : Session) : s.Outside s := ofAdds (.refl s)

end Session.Outside

open Session.Outside (ofAdds)

namespace Assemble

variable {a a' : Assembler} {u : Unit}

variable {s s' : Session} {id ret : Id}

theorem decorate_ok {number : Nat} {operands : List Operand}
    (h : Build.decorate id number operands s = .ok u s') : s.Outside s' := by
  have hplace : Build.place _ s = .ok u s' := h
  obtain ⟨d, hd, rfl⟩ := Build.onDraft_ok hplace
  cases hd
  exact ⟨.withDraft (List.Subset.refl _), rfl, rfl, rfl, rfl⟩

theorem groupArrays_ok (h : (as.forM groupArray) a = .ok u a') :
    ∃ slots, a.session.Outside a'.session ∧ GroupsCode a'.session as slots ∧
      a' = { a with
        session := a'.session
        symbols := { a.symbols with arrays := a.symbols.arrays.insertAll slots } } := by
  induction as generalizing a with
  | nil =>
    obtain ⟨_, rfl⟩ := pure_ok.1 h
    exact ⟨[], .refl _, .nil, rfl⟩
  | cons array as ih =>
    obtain ⟨_, a₁, hfirst, h⟩ := bind_ok.1 h
    obtain ⟨type, _, harray, hfirst⟩ := build_bind_ok hfirst
    obtain ⟨pointer, _, hpointer, hfirst⟩ := build_bind_ok hfirst
    obtain ⟨id, _, hvariable, hfirst⟩ := build_bind_ok hfirst
    obtain ⟨_, _, hdecorate, hfirst⟩ := build_bind_ok hfirst
    cases modify_ok.1 hfirst
    obtain ⟨ha₂, htype⟩ := Build.arrayOf_ok harray
    obtain ⟨ha₃, hptr⟩ := Build.pointerToType_ok hpointer
    obtain ⟨hk₄, hmem⟩ := Build.declareValue_ok hvariable
    have ho₅ := decorate_ok hdecorate
    obtain ⟨slots, ho, hcode, hsym⟩ := ih h
    have hlater := ho₅.trans ho
    have hmem := hlater.globals hmem
    have hptr := ((ofAdds hk₄.adds).trans hlater).pointers _ _ hptr
    have htype := ((ofAdds (ha₃.trans hk₄.adds)).trans hlater).arrays _ _ htype
    refine ⟨_, (ofAdds ((ha₂.trans ha₃).trans hk₄.adds)).trans hlater,
      .cons htype hptr hmem hcode, ?_⟩
    rw [hsym]
    rfl

variable {types params : List Id}

theorem paramTypes_ok {ps : List Lir.Param}
    (h : (ps.mapM fun p => Build.typeOf p.kind) s = .ok types s') :
    s.Adds [] s' ∧ ps.mapM (fun p => s'.types.get? p.kind) = some types := by
  induction ps generalizing s types with
  | nil =>
    obtain ⟨rfl, rfl⟩ := pure_ok.1 h
    exact ⟨.refl _, rfl⟩
  | cons p ps ih =>
    obtain ⟨type, s₁, rest, htype, hrest, rfl⟩ := mapM_cons_ok h
    obtain ⟨ha₁, ht⟩ := Build.typeOf_ok htype
    obtain ⟨ha₂, hts⟩ := ih hrest
    refine ⟨ha₁.trans ha₂, ?_⟩
    rw [mapM_cons, ha₂.types _ _ ht, hts]
    rfl

variable {f : Lir.Function}

theorem shape_ok {control : Nat} (h : shape f s = .ok (ret, types, control) s') :
    s.Adds [] s' ∧ ShapeCode s' f types := by
  unfold shape at h
  cases hr : f.role with
  | kernel =>
    simp only [hr] at h
    obtain ⟨bytePtr, s₁, hbyte, h⟩ := bind_ok.1 h
    obtain ⟨long, s₂, hlong, h⟩ := bind_ok.1 h
    obtain ⟨void, s₃, hvoid, h⟩ := bind_ok.1 h
    obtain ⟨heq, rfl⟩ := pure_ok.1 h
    cases heq
    obtain ⟨ha₁, byte, hb, hp⟩ := Build.pointerTo_ok hbyte
    obtain ⟨ha₂, hl⟩ := Build.typeOf_ok hlong
    obtain ⟨ha₃, _⟩ := Build.typeOf_ok hvoid
    have hlater := ha₂.trans ha₃
    exact ⟨(ha₁.trans ha₂).trans ha₃, .kernel hr (hlater.types _ _ hb)
      (hlater.pointers _ _ hp) (ha₃.types _ _ hl)⟩
  | device =>
    simp only [hr] at h
    obtain ⟨r, s₁, hret, h⟩ := bind_ok.1 h
    obtain ⟨ts, s₂, htypes, h⟩ := bind_ok.1 h
    obtain ⟨heq, rfl⟩ := pure_ok.1 h
    cases heq
    obtain ⟨ha₁, _⟩ := Build.typeOf_ok hret
    obtain ⟨ha₂, ht⟩ := paramTypes_ok htypes
    exact ⟨ha₁.trans ha₂, .device hr ht⟩

theorem param_ok {type : Id} {f : Function} (hf : s.draft.function = some f)
    (h : param type s = .ok id s') : s' = { s with draft := { s.draft with
      next := s.draft.next + 1
      function := some { f with params := f.params ++ [paramOf (type, id)] } } } := by
  obtain ⟨r, s₁, hfresh, h⟩ := bind_ok.1 h
  obtain ⟨_, s₂, hplace, h⟩ := bind_ok.1 h
  obtain ⟨rfl, rfl⟩ := pure_ok.1 h
  cases modifyGet_ok.1 hfresh
  obtain ⟨d, hd, rfl⟩ := Build.onDraft_ok hplace
  simp only [Draft.fresh, hf] at hd
  cases hd
  rfl

theorem params_ok {f : Function} (hf : s.draft.function = some f)
    (h : (types.mapM param) s = .ok params s') :
    types.length = params.length ∧ ∃ next, s' = { s with draft := { s.draft with
      next
      function := some { f with params := f.params ++ (types.zip params).map paramOf } } } := by
  induction types generalizing s f params with
  | nil =>
    obtain ⟨rfl, rfl⟩ := pure_ok.1 h
    refine ⟨rfl, s.draft.next, ?_⟩
    simp [← hf]
  | cons type types ih =>
    obtain ⟨id, s₁, rest, hfirst, hrest, rfl⟩ := mapM_cons_ok h
    cases param_ok hf hfirst
    obtain ⟨hlen, next, rfl⟩ := ih rfl hrest
    exact ⟨by simp [hlen], next, by simp⟩

theorem debugNames_ok (h : debugNames f id params a = .ok u a') :
    a.session.Adds [] a'.session ∧ a' = { a with session := a'.session } := by
  replace h := get_bind_ok.1 h
  split at h
  · obtain ⟨_, hstep, rfl⟩ := build_ok.1 h
    refine ⟨Preserves.forM (I := a.session.Adds []) (fun e _ => ?_) hstep (.refl _), rfl⟩
    exact fun _ _ _ hrun hs => hs.trans (Build.place_quiet (.inr rfl) hrun).adds
  · obtain ⟨_, rfl⟩ := pure_ok.1 h
    exact ⟨.refl _, rfl⟩

end Assemble

def entryPointOf (f : Lir.Function) (id : Id) (builtins : Builtins) : List Instruction :=
  match f.role with
  | .kernel => [⟨.entryPoint, none, none,
      [.enumerant .executionModel 6, .ref id, .text f.name] ++ builtins.values.map Operand.ref⟩]
  | .device => []

/-- A later session of the same module, with more entry points. -/
structure Session.Publishes (entries : List Instruction) (s s' : Session) : Prop
    extends s.Grows s' where
  functions : s'.draft.module.functions = s.draft.module.functions
  entryPoints : s'.draft.module.entryPoints = s.draft.module.entryPoints ++ entries

namespace Session.Publishes

variable {s s' s'' : Session} {entries entries' : List Instruction}

theorem trans (h : s.Publishes entries s') (h' : s'.Publishes entries' s'') :
    s.Publishes (entries ++ entries') s'' where
  toGrows := h.toGrows.trans h'.toGrows
  functions := h'.functions.trans h.functions
  entryPoints := by rw [h'.entryPoints, h.entryPoints, append_assoc]

theorem ofOutside (h : s.Outside s') : s.Publishes [] s' :=
  ⟨h.toGrows, h.functions, by simp [h.entryPoints]⟩

theorem withDraft {d : Draft} (h : d.module = s.draft.module) :
    s.Publishes [] { s with draft := d } :=
  ⟨.withDraft (h ▸ List.Subset.refl _), by rw [h], by simp [h]⟩

end Session.Publishes

namespace Assemble

variable {a a' : Assembler} {u : Unit}

variable {f : Lir.Function}

theorem publish_ok {id : Id} (h : publish f id a = .ok u a') :
    a.session.Publishes (entryPointOf f id a.builtins) a'.session ∧
      a'.session.draft.function = a.session.draft.function ∧
      a' = { a with session := a'.session } := by
  unfold publish at h
  unfold entryPointOf
  cases hr : f.role with
  | kernel =>
    simp only [hr] at h
    replace h := get_bind_ok.1 h
    obtain ⟨_, hplace, rfl⟩ := build_ok.1 h
    obtain ⟨d, hd, rfl⟩ := Build.onDraft_ok hplace
    cases hd
    exact ⟨⟨.withDraft (List.Subset.refl _), rfl, rfl⟩, rfl, rfl⟩
  | device =>
    simp only [hr] at h
    obtain ⟨_, hdecorate, rfl⟩ := build_ok.1 h
    have hout := decorate_ok hdecorate
    exact ⟨.ofOutside hout, hout.function, rfl⟩

variable {signature : Signature} {target : Option Id}

/-- A function is opened with its parameters. -/
theorem openFunction_ok {params : List Id} (h : openFunction f signature a = .ok params a') :
    ∃ types definition, definition.result = some signature.id ∧ types.length = params.length ∧
      ShapeCode a'.session f types ∧
      a'.session.draft.function = some ⟨definition, (types.zip params).map paramOf, []⟩ ∧
      a.session.Publishes (entryPointOf f signature.id a.builtins) a'.session ∧
      a' = { a with session := a'.session } := by
  obtain ⟨⟨ret, types, control⟩, _, hshape, h⟩ := build_bind_ok h
  obtain ⟨functionType, s₂, htype, h⟩ := build_bind_ok h
  obtain ⟨_, _, hplace, h⟩ := build_bind_ok h
  obtain ⟨ps, s₄, hparams, h⟩ := build_bind_ok h
  obtain ⟨_, a₅, hnames, h⟩ := bind_ok.1 h
  obtain ⟨_, a₆, hpublish, h⟩ := bind_ok.1 h
  obtain ⟨rfl, rfl⟩ := pure_ok.1 h
  obtain ⟨ha₁, hcode⟩ := shape_ok hshape
  have ha₂ := Build.functionType_ok htype
  obtain ⟨d, hd, hsession⟩ := Build.onDraft_ok hplace
  have hopen : d = { s₂.draft with function := some ⟨⟨.function, some ret,
      some signature.id, [.enumerant .functionControl control, .ref functionType]⟩, [], []⟩ } := by
    simp only [Draft.place, Draft.openFunction] at hd
    split at hd <;> cases hd
    rfl
  subst hopen
  rw [← hsession] at hparams
  obtain ⟨hlen, next, hsession₄⟩ := params_ok rfl hparams
  obtain ⟨ha₅, hs₅⟩ := debugNames_ok hnames
  obtain ⟨hp₆, hf₆, hs₆⟩ := publish_ok hpublish
  have hsame : a₅.builtins = a.builtins := by rw [hs₅]
  have ho₂ := ofAdds (ha₁.trans ha₂)
  have ho₅ := ofAdds ha₅
  have hp₄ : s₂.Publishes [] s₄ := by
    rw [hsession₄]
    exact .withDraft rfl
  have hpublishes :=
    (((Session.Publishes.ofOutside ho₂).trans hp₄).trans (.ofOutside ho₅)).trans hp₆
  refine ⟨types, ⟨.function, some ret, some signature.id,
    [.enumerant .functionControl control, .ref functionType]⟩, rfl, hlen, ?_, ?_, ?_, ?_⟩
  · exact hcode.later ((ha₂.toSees.trans hp₄.toSees).trans (ha₅.toSees.trans hp₆.toSees))
  · rw [hf₆, ho₅.function, hsession₄, nil_append]
  · simpa [hsame] using hpublishes
  · rw [hs₆, hs₅]

theorem returnBlock_ok (h : returnBlock f a = .ok target a') :
    a.session.Adds [] a'.session ∧ a' = { a with session := a'.session } := by
  replace h := get_bind_ok.1 h
  split at h
  · obtain ⟨id, _, hstep, h⟩ := build_bind_ok h
    obtain ⟨rfl, rfl⟩ := pure_ok.1 h
    exact ⟨(Build.fresh_quiet hstep).adds, rfl⟩
  · obtain ⟨rfl, rfl⟩ := pure_ok.1 h
    exact ⟨.refl _, rfl⟩

/-- What stands ahead of a body. -/
theorem prepare_ok {params : List Id} (h : prepare f signature a = .ok (params, target) a') :
    ∃ types definition slots first, definition.result = some signature.id ∧
      types.length = params.length ∧ ShapeCode a'.session f types ∧
      GroupsCode a'.session (f.arrays.filter fun array => array.region == .perGroup) slots ∧
      a'.session.draft.function = some ⟨definition, (types.zip params).map paramOf, []⟩ ∧
      a'.session.draft.block = some ⟨⟨.label, none, some first, []⟩, []⟩ ∧
      a.session.Publishes (entryPointOf f signature.id a.builtins) a'.session ∧
      a' = { a with
        session := a'.session
        symbols := { arrays := (∅ : Table ArrayId ArraySlot).insertAll slots }
        stage := .inBlock } := by
  replace h := modify_bind_ok.1 h
  obtain ⟨_, a₁, harrays, h⟩ := bind_ok.1 h
  replace h := modify_bind_ok.1 h
  obtain ⟨ps, a₂, hopen, h⟩ := bind_ok.1 h
  obtain ⟨first, s₃, hfresh, h⟩ := build_bind_ok h
  obtain ⟨_, s₄, hlabel, h⟩ := build_bind_ok h
  replace h := modify_bind_ok.1 h
  obtain ⟨t, a₅, hreturn, h⟩ := bind_ok.1 h
  obtain ⟨heq, rfl⟩ := pure_ok.1 h
  cases heq
  obtain ⟨slots, ho₁, hgroups, hs₁⟩ := groupArrays_ok harrays
  obtain ⟨types, definition, hid, hlen, hshape, hf₂, hp₂, hs₂⟩ := openFunction_ok hopen
  have ho₃ := ofAdds (Build.fresh_quiet hfresh).adds
  have hsession := Build.openBlock_ok hlabel
  have hp₄ : s₃.Publishes [] s₄ := by
    rw [hsession]
    exact .withDraft rfl
  obtain ⟨ha₅, hs₅⟩ := returnBlock_ok hreturn
  have ho₅ := ofAdds ha₅
  have hlater := (hp₄.toSees).trans ho₅.toSees
  have hpublishes := ((((Session.Publishes.ofOutside ho₁).trans hp₂).trans (.ofOutside ho₃)).trans
    hp₄).trans (.ofOutside ho₅)
  have hbuiltins : a₁.builtins = a.builtins := by rw [hs₁]
  refine ⟨types, definition, slots, first, hid, hlen, hshape.later (ho₃.toSees.trans hlater),
    hgroups.later (hp₂.toSees.trans (ho₃.toSees.trans hlater)), ?_, ?_, ?_, ?_⟩
  · rw [ho₅.function]
    rw [hsession]
    exact ho₃.function.trans hf₂
  · rw [ho₅.block]
    rw [hsession]
  · simpa [hbuiltins] using hpublishes
  · rw [hs₅, hs₂, hs₁]

/-- A declared function becomes its code. -/
theorem define_lays (hentry : f.entry? = some entry)
    (hssa : (f.paramVars ++ f.blocks.flatMap fun b => Lir.defs b.ops).Nodup)
    (h : define f entry signature a = .ok u a') :
    ∃ target l e, a'.session.draft.module.functions = a.session.draft.module.functions ++ [e] ∧
      FunctionCode ⟨⟨a.settings, f, a.builtins, a.callees, target⟩, a'.session, a'.symbols⟩
        signature.id l e := by
  obtain ⟨params, target, a₁, b, d, hprepare, hemit, hd, rfl⟩ := define_cases h
  obtain ⟨types, definition, slots, first, hid, hlen, hshape, hgroups, hf₁, hb₁, hp₁, hs₁⟩ :=
    prepare_ok hprepare
  have hsym : Body.symbols ⟨a₁.session, a₁.symbols⟩ =
      { arrays := (∅ : Table ArrayId ArraySlot).insertAll slots } := by
    rw [hs₁]
  have hzip : (types.zip params).map Prod.snd = params := map_snd_zip (by simp [hlen])
  rw [← hzip] at hemit
  obtain ⟨l, hparams, hlays, hcode⟩ := Emit.body_ok hsym hb₁ hssa hemit
  have hopen := hlays.function
  rw [hf₁] at hopen
  have hclose : d = { b.session.draft.onModule (fun m => { m with functions := m.functions ++
      [⟨definition, (types.zip params).map paramOf, l.emitted ++ Scope.leaving
        ⟨a₁.settings, f, a₁.builtins, a₁.callees, target⟩⟩] }) with function := none } := by
    simp only [Draft.closeFunction, hopen, hlays.closed] at hd
    cases hd
    rfl
  have hgrows : b.session.Grows { b.session with draft := d } := by
    rw [hclose]
    exact .withDraft (List.Subset.refl _)
  have hscope : (⟨a₁.settings, f, a₁.builtins, a₁.callees, target⟩ : Scope) =
      ⟨a.settings, f, a.builtins, a.callees, target⟩ := by rw [hs₁]
  rw [hscope] at hcode
  have hnames : (b.names ⟨a.settings, f, a.builtins, a.callees, target⟩).Sees
      ⟨⟨a.settings, f, a.builtins, a.callees, target⟩, { b.session with draft := d }, b.symbols⟩ :=
    ⟨rfl, hgrows.toSees, Symbols.Sees.refl _⟩
  have hlater := hlays.grows.toSees.trans hgrows.toSees
  have htypes : l.params.map Prod.fst = types := by
    rw [hparams]
    exact map_fst_zip (by simp [hlen])
  refine ⟨target, l, ⟨definition, (types.zip params).map paramOf, l.emitted ++ Scope.leaving
      ⟨a₁.settings, f, a₁.builtins, a₁.callees, target⟩⟩, ?_, ?_⟩
  · rw [hclose, ← hp₁.functions, ← hlays.functions]
    rfl
  · refine ⟨hid, by rw [hparams], rfl, ?_, entry, slots, hentry, hgroups.later hlater,
      hcode.later hnames rfl⟩
    rw [htypes]
    exact hshape.later hlater

end Assemble

end Codegen

end KernelForge
