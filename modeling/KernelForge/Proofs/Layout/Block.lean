import KernelForge.Proofs.Layout.MergeCode

/-!
# The instructions of blocks

The recipes of the operations of a block and its end are emitted as `BlockCode` tells
(`Emit.block_ok`), and the blocks of a function one after another (`Body.Lays`).
-/

namespace KernelForge.Codegen

open List Body Build Select Symbols Symbols.Sees Table
open Lir (Kind ValueId BlockId Terminator)
open Spirv

variable {k : Kind} {α : Type} {ms : List Merge} {i : Instruction} {ids given results : List Id}
  {hint : Option Lir.LoopHint} {os : List Lir.Op} {o : Lir.Operand} {wide : Bool} {m : Merge}

/-! ## Emission of operations and ends -/

namespace Emit

variable {scope : Scope} {b b' : Body} {defined : List ValueId} {u : Unit} {id : Id}
    {block : BlockId}
  {uses : List ValueId} {selection : Select α} {a : α}

/-- A recipe is selected, and its lines are emitted. -/
theorem recipe_lines (h : recipe given selection scope b = .ok (a, ids) b') :
    ∃ r, selection (view scope b.symbols) ⟨[], given.length⟩ = .ok a r ∧
      lines given r.lines scope b = .ok ids b' := by
  simp only [recipe, bind_apply, read_apply, pure_bind] at h
  replace h := get_bind_ok.1 h
  cases hs : selection (view scope b.symbols) ⟨[], given.length⟩ with
  | error =>
    simp only [hs] at h
    obtain ⟨_, _, _, h⟩ := bind_ok.1 h
    exact absurd h throw_ok
  | ok a' r =>
    simp only [hs, bind_apply] at h
    obtain ⟨ids', b₁, hlines, h⟩ := bind_ok.1 h
    obtain ⟨heq, rfl⟩ := pure_ok.1 h
    cases heq
    exact ⟨r, rfl, hlines⟩

/-- A selection becomes the instructions of its lines. -/
theorem recipe_ok
    {defs : List ValueId} (ht : b.symbols.Told defined) (hnew : NewValues defs defined)
    (hw : ∀ a r, selection (b.names scope).view ⟨[], given.length⟩ = .ok a r →
      r.lines.flatMap Line.defs = defs)
    (h : recipe given selection scope b = .ok (a, ids) b') :
    ∃ c, b.Emits c b' ∧ b'.symbols.Told (defs.reverse ++ defined) ∧
      SelectionCode (b'.names scope) given selection c a ids := by
  obtain ⟨r, hs, hlines⟩ := recipe_lines h
  have hdefs := hw a r hs
  rw [← hdefs] at hnew ⊢
  obtain ⟨c, hemits, htold, hcode⟩ := lines_ok ht hnew hlines
  have hview : (b'.names scope).view = (b.names scope).view := (hemits.names scope).view
  exact ⟨c, hemits, htold, .intro (by rw [hview]; exact hs) hcode⟩

/-- A selection that defines nothing. -/
theorem fetch_ok (hf : Fetches selection uses) (ht : b.symbols.Told defined)
    (h : recipe [] selection scope b = .ok (a, ids) b') :
    ∃ c, b.Emits c b' ∧ b'.symbols.Told defined ∧
      SelectionCode (b'.names scope) [] selection c a ids := by
  have hw : ∀ a r, selection (b.names scope).view ⟨[], 0⟩ = .ok a r →
      r.lines.flatMap Line.defs = [] := by
    intro a r hr
    obtain ⟨_, ls, hlines, _, hdefs, _⟩ := hf hr
    rw [hlines, nil_append, hdefs]
  exact recipe_ok ht ⟨nodup_nil, nofun⟩ hw h

theorem op_ok {o : Lir.Op} (ht : b.symbols.Told defined) (hnew : NewValues o.dst?.toList defined)
    (h : op o scope b = .ok u b') :
    ∃ c u ids, b.Emits c b' ∧ b'.symbols.Told (o.dst?.toList ++ defined) ∧
      SelectionCode (b'.names scope) [] (Select.op o) c u ids := by
  obtain ⟨⟨u', ids⟩, b₁, hrecipe, h⟩ := bind_ok.1 h
  obtain ⟨_, rfl⟩ := pure_ok.1 h
  have hw : ∀ a r, Select.op o (b.names scope).view ⟨[], 0⟩ = .ok a r →
      r.lines.flatMap Line.defs = o.dst?.toList := by
    intro a r hr
    obtain ⟨_, ls, hlines, _, hdefs, _⟩ := Select.op_writes o hr
    rw [hlines, nil_append, hdefs]
  obtain ⟨c, hemits, htold, hcode⟩ := recipe_ok ht hnew hw hrecipe
  refine ⟨c, u', ids, hemits, ?_, hcode⟩
  have hreverse : o.dst?.toList.reverse = o.dst?.toList := by cases o.dst? <;> rfl
  rw [← hreverse]
  exact htold

/-- Operations become the instructions of their recipes, one after another. -/
theorem ops_ok (ht : b.symbols.Told defined)
    (hnew : NewValues (Lir.defs os) defined) (h : (os.forM op) scope b = .ok u b') :
    ∃ cs, b.Emits cs.flatten b' ∧ b'.symbols.Told ((Lir.defs os).reverse ++ defined) ∧
      OpsCode (b'.names scope) os cs := by
  induction os generalizing b defined with
  | nil =>
    obtain ⟨_, rfl⟩ := pure_ok.1 h
    exact ⟨[], .refl _, ht, .nil⟩
  | cons o os ih =>
    obtain ⟨_, b₁, hfirst, h⟩ := bind_ok.1 h
    rw [Lir.defs_cons] at hnew ⊢
    obtain ⟨c, _, ids, hemits, htold, hcode⟩ := op_ok ht hnew.left hfirst
    obtain ⟨cs, hemits', htold', hcodes⟩ := ih htold (hnew.right fun _ => id) h
    refine ⟨c :: cs, ?_, ?_, .cons (hcode.later (hemits'.names scope)) hcodes⟩
    · exact hemits.trans hemits'
    have hreverse : o.dst?.toList.reverse = o.dst?.toList := by cases o.dst? <;> rfl
    rw [reverse_append, hreverse, append_assoc]
    exact htold'

theorem selected_ok {selection : Select Temp}
    (hf : Fetches selection uses) (ht : b.symbols.Told defined)
    (h : selected selection scope b = .ok id b') :
    ∃ c t ids, b.Emits c b' ∧ b'.symbols.Told defined ∧
      SelectionCode (b'.names scope) [] selection c t ids ∧ ids[t]? = some id := by
  obtain ⟨⟨t, ids⟩, b₁, hrecipe, h⟩ := bind_ok.1 h
  obtain ⟨hid, rfl⟩ := temp_ok h
  obtain ⟨c, hemits, htold, hcode⟩ := fetch_ok hf ht hrecipe
  exact ⟨c, t, ids, hemits, htold, hcode, hid⟩

/-- The step of a label, for names that are told. -/
theorem label_told (ht : b.symbols.Told defined) (h : label block scope b = .ok id b') :
    b.Emits [] b' ∧ b'.symbols.Told defined ∧ b'.symbols.labels.get? block = some id := by
  obtain ⟨hemits, hl, hv, hr⟩ := label_ok h
  exact ⟨hemits, ht.congr hv hr, hl⟩

theorem switchCases_ok {cases : List (Int64 × BlockId)}
    {targets : List (List Operand)} (h : (cases.mapM (switchCase wide)) scope b = .ok targets b') :
    b.Emits [] b' ∧ cases.mapM ((b'.names scope).caseOperands wide) = some targets ∧
      b'.symbols.values = b.symbols.values ∧ b'.symbols.reserved = b.symbols.reserved := by
  rw [mapM_apply] at h
  induction cases generalizing b targets with
  | nil =>
    obtain ⟨rfl, rfl⟩ := pure_ok.1 h
    exact ⟨.refl _, rfl, rfl, rfl⟩
  | cons case cases ih =>
    obtain ⟨os, b₁, rest, hfirst, hrest, rfl⟩ := mapM_cons_ok h
    simp only [switchCase, bind_apply] at hfirst
    obtain ⟨id, b₃, hlabel, hpure⟩ := bind_ok.1 hfirst
    obtain ⟨rfl, rfl⟩ := pure_ok.1 hpure
    obtain ⟨hemits, hl, hv, hr⟩ := label_ok hlabel
    obtain ⟨hemits', hcases, hv', hr'⟩ := ih hrest
    refine ⟨hemits.trans hemits', ?_, hv'.trans hv, hr'.trans hr⟩
    have hcase : (b'.names scope).caseOperands wide case =
        some [caseNumber wide case.1, .ref id] :=
      Option.map_eq_some_iff.2 ⟨id, hemits'.symbols.labels _ _ hl, rfl⟩
    rw [mapM_cons, hcase, hcases]
    rfl

theorem loopHint_ok (ht : b.symbols.Told defined) (h : loopHint hint scope b = .ok u b') :
    ∃ c, b.Emits c b' ∧ b'.symbols.Told defined ∧ HintCode (b'.names scope) hint c := by
  cases hint with
  | none =>
    obtain ⟨_, rfl⟩ := pure_ok.1 h
    exact ⟨[], .refl _, ht, .none⟩
  | some =>
    simp only [loopHint, bind_apply] at h
    obtain ⟨m, b₁, hmerge, h⟩ := bind_ok.1 h
    obtain ⟨c, b₂, hcontinue, h⟩ := bind_ok.1 h
    obtain ⟨hemits, htold, hm⟩ := label_told ht hmerge
    obtain ⟨hemits', htold', hc⟩ := label_told htold hcontinue
    obtain ⟨session, hstep, rfl⟩ := (build_ok scope).1 h
    have hlast : b₂.Emits [_] { b₂ with session } := ⟨(append_ok hstep).adds, refl _⟩
    refine ⟨_, (hemits.trans hemits').trans hlast, htold', .some ?_ ?_⟩
    · exact (hemits'.trans hlast).symbols.labels _ _ hm
    · exact hlast.symbols.labels _ _ hc

end Emit

/-! ## Opening and closing blocks -/

structure Body.Closes (i : Instruction) (b b' : Body) : Prop where
  symbols : b'.symbols = b.symbols
  session : ∃ f e, b.session.draft.function = some f ∧ b.session.draft.block = some e ∧
    b'.session = { b.session with draft := { b.session.draft with
      function := some { f with blocks := f.blocks ++ [{ e with body := e.body ++ [i] }] }
      block := none } }

variable {b b' : Body}

theorem Body.Closes.grows (h : b.Closes i b') : b.session.Grows b'.session := by
  obtain ⟨f, e, _, _, hs⟩ := h.session
  rw [hs]
  exact .withDraft (List.Subset.refl _)

theorem Body.Closes.names (h : b.Closes i b') (scope : Scope) :
    (b.names scope).Sees (b'.names scope) := by
  refine ⟨rfl, h.grows.toSees, ?_⟩
  show b.symbols.Sees b'.symbols
  rw [h.symbols]
  exact .refl _

namespace Emit

variable {scope : Scope} {b b' : Body} {defined : List ValueId} {u : Unit}

theorem terminate_ok {op : Opcode} {operands : List Operand} (hop : op.isTerminator = true)
    (h : terminate op operands scope b = .ok u b') : b.Closes ⟨op, none, none, operands⟩ b' := by
  obtain ⟨_, hstep, rfl⟩ := (build_ok scope).1 h
  exact ⟨rfl, Build.terminate_ok hop hstep⟩

/-- The end of a block becomes its instructions and closes the block. -/
theorem terminator_ok {t : Terminator} (ht : b.symbols.Told defined)
    (h : terminator t scope b = .ok u b') :
    ∃ pre last b₁, b.Emits pre b₁ ∧ b₁.symbols.Told defined ∧ b₁.Closes last b' ∧
      EndCode (b₁.names scope) t pre last := by
  cases t with
  | jump =>
    simp only [terminator, bind_apply] at h
    obtain ⟨id, b₁, hlabel, h⟩ := bind_ok.1 h
    obtain ⟨hemits, htold, hl⟩ := label_told ht hlabel
    exact ⟨[], _, b₁, hemits, htold, terminate_ok rfl h, .jump hl⟩
  | branch cond =>
    simp only [terminator, bind_apply] at h
    obtain ⟨id, b₁, hcond, h⟩ := bind_ok.1 h
    obtain ⟨tl, b₂, htrue, h⟩ := bind_ok.1 h
    obtain ⟨fl, b₃, hfalse, h⟩ := bind_ok.1 h
    obtain ⟨_, b₄, hhint, h⟩ := bind_ok.1 h
    obtain ⟨c, t, ids, he₁, ht₁, hcode, hid⟩ := selected_ok (condition_fetches cond) ht hcond
    obtain ⟨he₂, ht₂, hl₂⟩ := label_told ht₁ htrue
    obtain ⟨he₃, ht₃, hl₃⟩ := label_told ht₂ hfalse
    obtain ⟨c', he₄, ht₄, hhint⟩ := loopHint_ok ht₃ hhint
    have hemits := ((he₁.trans he₂).trans he₃).trans he₄
    rw [append_nil, append_nil] at hemits
    refine ⟨_, _, b₄, hemits, ht₄, terminate_ok rfl h, .branch (hcode.later ?_) hid ?_ ?_ hhint⟩
    · exact ((he₂.trans he₃).trans he₄).names scope
    · exact (he₃.trans he₄).symbols.labels _ _ hl₂
    · exact he₄.symbols.labels _ _ hl₃
  | switch selector =>
    simp only [terminator, bind_apply] at h
    obtain ⟨⟨⟨t, k⟩, ids⟩, b₁, hselector, h⟩ := bind_ok.1 h
    obtain ⟨value, hid, h⟩ := look_ok temp_ok h
    obtain ⟨dl, b₂, hdefault, h⟩ := bind_ok.1 h
    obtain ⟨targets, b₃, hcases, h⟩ := bind_ok.1 h
    obtain ⟨c, he₁, ht₁, hcode⟩ := fetch_ok (selector_fetches selector) ht hselector
    obtain ⟨he₂, ht₂, hl₂⟩ := label_told ht₁ hdefault
    obtain ⟨he₃, htargets, hv, hr⟩ := switchCases_ok hcases
    have hemits := (he₁.trans he₂).trans he₃
    rw [append_nil, append_nil] at hemits
    refine ⟨_, _, b₃, hemits, ht₂.congr hv hr, terminate_ok rfl h,
      .switch (hcode.later ?_) hid ?_ htargets⟩
    · exact (he₂.trans he₃).names scope
    · exact he₃.symbols.labels _ _ hl₂
  | ret value =>
    cases value with
    | none =>
      simp only [terminator, bind_apply, read_apply, pure_bind] at h
      cases hr : scope.returnBlock with
      | some =>
        simp only [hr] at h
        exact ⟨[], _, b, Body.Emits.refl _, ht, terminate_ok rfl h, .leave hr⟩
      | none =>
        simp only [hr] at h
        exact ⟨[], _, b, Body.Emits.refl _, ht, terminate_ok rfl h, .retVoid hr⟩
    | some =>
      simp only [terminator, bind_apply, read_apply, pure_bind] at h
      cases hk : scope.function.isKernel with
      | true =>
        simp only [hk] at h
        exact absurd h throw_ok
      | false =>
        simp only [hk, Bool.false_eq_true, if_false, bind_apply] at h
        obtain ⟨id, b₁, hvalue, h⟩ := bind_ok.1 h
        obtain ⟨c, t, ids, hemits, htold, hcode, hid⟩ :=
          selected_ok (operandAs_fetches _ (List.Subset.refl _)) ht hvalue
        exact ⟨c, _, b₁, hemits, htold, terminate_ok rfl h, .ret hk hcode hid⟩
  | unreachable =>
    exact ⟨[], _, b, Body.Emits.refl _, ht, terminate_ok rfl h, .unreachable⟩

theorem openBlock_ok {id : Id} (h : openBlock id scope b = .ok u b') :
    b'.symbols = b.symbols ∧ b'.session = { b.session with draft := { b.session.draft with
        block := some ⟨⟨.label, none, some id, []⟩, []⟩ } } := by
  obtain ⟨_, hstep, rfl⟩ := (build_ok scope).1 h
  exact ⟨rfl, Build.openBlock_ok hstep⟩

theorem debugName_ok {id : Id} {text : String} (h : debugName id text scope b = .ok u b') :
    b.session.Adds [] b'.session ∧ b'.symbols = b.symbols := by
  simp only [debugName, bind_apply, read_apply, pure_bind] at h
  split at h
  · obtain ⟨_, hstep, rfl⟩ := (build_ok scope).1 h
    exact ⟨(place_quiet (.inr rfl) hstep).adds, rfl⟩
  · obtain ⟨_, rfl⟩ := pure_ok.1 h
    exact ⟨.refl _, rfl⟩

end Emit

/-- A later moment of the emission of a function, with whole blocks added to it. -/
structure Body.Lays (es : List Block) (b b' : Body) : Prop where
  grows : b.session.Grows b'.session
  symbols : b.symbols.Sees b'.symbols
  function : b'.session.draft.function =
    b.session.draft.function.map fun f => { f with blocks := f.blocks ++ es }
  closed : b'.session.draft.block = none
  functions : b'.session.draft.module.functions = b.session.draft.module.functions

namespace Body.Lays

variable {b b' b'' : Body} {es es' : List Block}

theorem refl (h : b.session.draft.block = none) : b.Lays [] b where
  grows := .refl _
  symbols := .refl _
  function := by simp
  closed := h
  functions := rfl

theorem trans (h : b.Lays es b') (h' : b'.Lays es' b'') : b.Lays (es ++ es') b'' where
  grows := h.grows.trans h'.grows
  symbols := h.symbols.trans h'.symbols
  function := by
    rw [h'.function, h.function]
    cases b.session.draft.function <;> simp
  closed := h'.closed
  functions := h'.functions.trans h.functions

theorem names (h : b.Lays es b') (scope : Scope) : (b.names scope).Sees (b'.names scope) :=
  ⟨rfl, h.grows.toSees, h.symbols⟩

end Body.Lays

/-- What was emitted since the block was opened, and the end, make the block. -/
theorem Body.Closes.lays {c : List Instruction} {label last : Instruction} {session : Session}
    {symbols : Symbols} (hb : session.draft.block = some ⟨label, []⟩)
    (h : Emits c ⟨session, symbols⟩ b) (h' : b.Closes last b') :
    session.Grows b'.session ∧ symbols.Sees b'.symbols ∧
      b'.session.draft.function = session.draft.function.map
        (fun f => { f with blocks := f.blocks ++ [⟨label, c ++ [last]⟩] }) ∧
      b'.session.draft.block = none ∧
      b'.session.draft.module.functions = session.draft.module.functions := by
  have hgrows : session.Grows b'.session := h.session.toGrows.trans h'.grows
  have hsymbols : symbols.Sees b'.symbols := by
    rw [h'.symbols]
    exact h.symbols
  obtain ⟨f, e, hf, he, hs⟩ := h'.session
  have hdraft := h.session.draft
  have hf : session.draft.function = some f := hdraft.function ▸ hf
  rw [hdraft.block, hb] at he
  simp only [Option.map_some, Option.some.injEq] at he
  subst he
  refine ⟨hgrows, hsymbols, ?_⟩
  rw [hs]
  exact ⟨by simp [hf], rfl, hdraft.functions⟩

theorem leadingMerges_defs (os : List Lir.Op) :
    Lir.defs os =
      (leadingMerges os).map Prod.fst ++ Lir.defs (os.drop (leadingMerges os).length) := by
  fun_induction leadingMerges os with
  | case1 dst incoming rest ih => simpa [Lir.defs, Lir.Op.dst?] using ih
  | case2 => simp

namespace Emit

variable {scope : Scope} {b b' : Body} {defined : List ValueId} {u : Unit}

/-- A block becomes its instructions. -/
theorem block_ok {ordinal : Nat} {block : Lir.Block} (ht : b.symbols.Told defined)
    (hnew : NewValues (Lir.defs block.ops) defined)
    (h : Emit.block ordinal block scope b = .ok u b') :
    ∃ l, b.Lays [l.block] b' ∧ b'.symbols.Told ((Lir.defs block.ops).reverse ++ defined) ∧
      BlockCode (b'.names scope) block l := by
  simp only [Emit.block, bind_apply] at h
  obtain ⟨id, b₁, hlabel, h⟩ := bind_ok.1 h
  obtain ⟨_, b₂, hopen, h⟩ := bind_ok.1 h
  obtain ⟨_, b₃, hname, h⟩ := bind_ok.1 h
  obtain ⟨_, b₄, hmerges, h⟩ := bind_ok.1 h
  obtain ⟨_, b₅, hops, h⟩ := bind_ok.1 h
  rw [leadingMerges_defs] at hnew ⊢
  obtain ⟨he₁, ht₁, hl₁⟩ := label_told ht hlabel
  obtain ⟨hs₂, hsession⟩ := openBlock_ok hopen
  obtain ⟨ha₃, hs₃⟩ := debugName_ok hname
  have ht₃ : b₃.symbols.Told defined := by
    rw [hs₃, hs₂]
    exact ht₁
  obtain ⟨phis, stores, he₄, ht₄, hcode₄, hchecked⟩ := merges_ok ht₃ hnew.left hmerges
  obtain ⟨ops, he₅, ht₅, hcode₅⟩ := ops_ok ht₄ (hnew.right fun _ => mem_reverse.1) hops
  obtain ⟨pre, last, b₆, he₆, ht₆, hcloses, hcode₆⟩ := terminator_ok ht₅ h
  have he₃ : Emits [] ⟨b₂.session, b₁.symbols⟩ b₃ := ⟨ha₃, by rw [hs₃, hs₂]; exact .refl _⟩
  have hemits : Emits (phis ++ (stores ++ ops.flatten ++ pre)) ⟨b₂.session, b₁.symbols⟩ b₆ := by
    have := ((he₃.trans he₄).trans he₅).trans he₆
    simpa using this
  have hopened : b₂.session.draft.block = some ⟨⟨.label, none, some id, []⟩, []⟩ := by rw [hsession]
  obtain ⟨hgrows, hsees, hfunction, hclosed, hfunctions⟩ := hcloses.lays hopened hemits
  have hlast := hcloses.names scope
  rw [append_assoc] at hfunction
  refine ⟨⟨id, phis, stores, ops, pre, last⟩, ?_, ?_, ?_⟩
  · have hgrows₂ : b₁.session.Grows b₂.session := by
      rw [hsession]
      exact .withDraft (List.Subset.refl _)
    have hd₁ := he₁.session.draft
    rw [hsession] at hfunction hfunctions
    refine ⟨(he₁.session.toGrows.trans hgrows₂).trans hgrows, he₁.symbols.trans hsees, ?_, hclosed,
      hfunctions.trans hd₁.functions⟩
    rw [hfunction, hd₁.function]
    rfl
  · rw [hcloses.symbols, reverse_append, append_assoc]
    exact ht₆
  · have hsees₁ : (b₁.symbols).Sees b'.symbols := hsees
    refine ⟨hsees₁.labels _ _ hl₁, hchecked, ?_, ?_, ?_⟩
    · exact hcode₄.later (((he₅.trans he₆).names scope).trans hlast)
    · exact hcode₅.later ((he₆.names scope).trans hlast)
    · exact hcode₆.later hlast

end Emit

end KernelForge.Codegen
