import KernelForge.Lir.Function
import KernelForge.Proofs.General

/-!
# Single assignment along paths

A function is in strict single-assignment form when every value is declared once and defined once,
and when on every path from the entry a use comes after the definition. A merge uses its operands
at the end of the block they come from. Since the form speaks about every path, it also speaks about
paths that no run takes: `Walk.splice` makes one by leaving out a loop of another.
-/

namespace KernelForge

open List

namespace Lir

/-! ## Uses and definitions -/

def Operand.vars : Operand → List ValueId
  | .var v => [v]
  | .const _ => []

def Address.vars : Address → List ValueId
  | .heap base offset | .generic base offset => base :: offset.toList.flatMap Operand.vars
  | .array _ _ index => index.vars

/-- The variables an operation uses where it stands. A merge uses none there. -/
def Op.uses : Op → List ValueId
  | .binary _ _ lhs rhs | .integerTest _ lhs rhs => lhs.vars ++ rhs.vars
  | .unary _ _ src | .convert _ _ src | .move _ src => src.vars
  | .select _ _ lhs rhs onTrue onFalse => lhs.vars ++ rhs.vars ++ onTrue.vars ++ onFalse.vars
  | .intrinsic _ _ args | .vectorBuild _ args | .call _ _ args => args.flatMap Operand.vars
  | .load _ a => a.vars
  | .store a value => a.vars ++ value.vars
  | .vectorExtract _ vector _ => vector.vars
  | .vectorInsert _ vector _ value => vector.vars ++ value.vars
  | .phi _ _ | .threadId _ _ _ | .barrier _ => []

/-- The variables the end of a block uses. -/
def Terminator.uses : Terminator → List ValueId
  | .branch condition _ _ _ => condition.vars
  | .switch selector _ _ => selector.vars
  | .ret (some value) => value.vars
  | _ => []

/-- The variables that operations define. -/
def defs (ops : List Op) : List ValueId := ops.filterMap Op.dst?

@[simp]
theorem defs_nil : defs [] = [] := rfl

theorem defs_append (l l' : List Op) : defs (l ++ l') = defs l ++ defs l' := filterMap_append

theorem defs_cons (o : Op) (l : List Op) : defs (o :: l) = o.dst?.toList ++ defs l := by
  cases h : o.dst? <;> simp [defs, h]

/-- The variables a merge uses at the end of a block. -/
def Op.usesFrom (pred : BlockId) : Op → List ValueId
  | .phi _ incoming => incoming.flatMap fun e => if e.1 = pred then e.2.vars else []
  | _ => []

namespace Function

variable (f : Function)

def paramVars : List ValueId := f.params.map Param.var

/-- A path from the entry through the blocks `passed`, in order, to a block. -/
inductive Walk : List Block → Block → Prop
  | start {b : Block} (h : f.blocks.head? = some b) : Walk [] b
  | step {passed : List Block} {b b' : Block} (h : Walk passed b) (hb : b' ∈ f.blocks)
      (hs : b'.id ∈ b.terminator.successors) : Walk (passed ++ [b]) b'

/-- The variables that a path defines, in order: those of the passed blocks, then those of the first
operations of the last one. -/
def trace (passed : List Block) (ops : List Op) : List ValueId :=
  (passed.flatMap fun b => defs b.ops) ++ defs ops

/-- Whether a variable has a definition on a path, as a parameter or by an operation. -/
def Defined (passed : List Block) (ops : List Op) (v : ValueId) : Prop :=
  v ∈ f.paramVars ∨ v ∈ trace passed ops

/-- Strict single-assignment form. -/
structure StrictSSA : Prop where
  /-- Every block has a name of its own. -/
  blocks : (f.blocks.map Block.id).Nodup
  /-- Every value is declared once. -/
  declared : (f.values.map Prod.fst).Nodup
  /-- Every value is defined once, as a parameter or by an operation. -/
  assigned : (f.paramVars ++ f.blocks.flatMap fun b => defs b.ops).Nodup
  /-- What is defined is declared. -/
  known : ∀ b ∈ f.blocks, ∀ v ∈ defs b.ops, v ∈ f.values.map Prod.fst
  /-- An operation uses what is defined before it. -/
  ops : ∀ passed b before o after, f.Walk passed b → b.ops = before ++ o :: after →
    ∀ v ∈ o.uses, f.Defined passed before v
  /-- The end of a block uses what is defined up to it. -/
  ends : ∀ passed b, f.Walk passed b → ∀ v ∈ b.terminator.uses, f.Defined passed b.ops v
  /-- A merge uses what is defined at the end of the block it is entered from. -/
  merges : ∀ passed b b', f.Walk passed b → b' ∈ f.blocks → b'.id ∈ b.terminator.successors →
    ∀ o ∈ b'.ops, ∀ v ∈ o.usesFrom b.id, f.Defined passed b.ops v

/-- Blocks have names of their own, and every value is defined once. -/
structure Distinct : Prop where
  blocks : (f.blocks.map Block.id).Nodup
  assigned : (f.paramVars ++ f.blocks.flatMap fun b => defs b.ops).Nodup

variable {f} in
theorem StrictSSA.distinct (h : f.StrictSSA) : f.Distinct := ⟨h.blocks, h.assigned⟩

namespace Walk

variable {f} {passed l l' : List Block} {b c d : Block}

theorem mem (h : f.Walk passed b) : b ∈ f.blocks := by
  cases h with
  | start h => exact mem_of_mem_head? h
  | step _ hb => exact hb

theorem passed_mem (h : f.Walk passed b) : ∀ c ∈ passed, c ∈ f.blocks := by
  induction h with
  | start => simp
  | step h _ _ ih =>
    exact forall_mem_append.2 ⟨ih, forall_mem_singleton.2 h.mem⟩

/-- A path to a block may go on as any other path does that passes the block. -/
theorem splice (h : f.Walk (l ++ d :: l') c) :
    f.Walk l d ∧ ∀ u, f.Walk u d → f.Walk (u ++ d :: l') c := by
  generalize hp : l ++ d :: l' = passed at h
  induction h generalizing l' with
  | start => simp at hp
  | @step passed b b' h hb hs ih =>
    rcases eq_nil_or_concat l' with rfl | ⟨l'', last, rfl⟩
    · obtain ⟨rfl, hd⟩ := append_inj' hp rfl
      cases hd
      exact ⟨h, fun _ hu => .step hu hb hs⟩
    · have hp' : (l ++ d :: l'') ++ [last] = passed ++ [b] := by simpa using hp
      obtain ⟨hp'', hlast⟩ := append_inj' hp' rfl
      cases hlast
      obtain ⟨hl, hw⟩ := ih hp''
      exact ⟨hl, fun u hu => by simpa using Walk.step (hw u hu) hb hs⟩

end Walk

/-! ## Definitions along a path -/

section Fresh

variable {f} {passed : List Block} {b d : Block} {before after bd ad : List Op} {o : Op}
  {x y : ValueId} {l : List Block} {ad' bd' ops : List Op}

theorem trace_append (l l' : List Block) (ops : List Op) :
    trace (l ++ l') ops = (l.flatMap fun b => defs b.ops) ++ trace l' ops := by
  simp [trace]

theorem trace_cons (ops : List Op) : trace (d :: passed) ops = defs d.ops ++ trace passed ops := by
  simp [trace]

theorem nodup_of_flatMap (h : (l.flatMap fun b => defs b.ops).Nodup)
    (hd : d ∈ l) : (defs d.ops).Nodup := by
  obtain ⟨u, w, rfl⟩ := append_of_mem hd
  rw [flatMap_append] at h
  exact (nodup_append.1 (nodup_append.1 h).2.1).1

/-- Operations that define a variable once have one place for its definition. -/
theorem split_unique {o' : Op} (h : (defs (bd ++ o :: ad)).Nodup)
    (heq : bd ++ o :: ad = bd' ++ o' :: ad') (ho : o.dst? = some x) (ho' : o'.dst? = some x) :
    bd = bd' ∧ o = o' ∧ ad = ad' := by
  induction bd generalizing bd' with
  | nil =>
    cases bd' with
    | nil => simpa using heq
    | cons c bd' =>
      obtain ⟨rfl, rfl⟩ : o = c ∧ ad = bd' ++ o' :: ad' := by simpa using heq
      simp [defs_append, defs_cons, ho, ho'] at h
  | cons c bd ih =>
    cases bd' with
    | nil =>
      obtain ⟨rfl, rfl⟩ : c = o' ∧ bd ++ o :: ad = ad' := by simpa using heq
      simp [defs_append, defs_cons, ho, ho'] at h
    | cons c' bd' =>
      obtain ⟨rfl, htail⟩ : c = c' ∧ bd ++ o :: ad = bd' ++ o' :: ad' := by simpa using heq
      rw [cons_append, defs_cons] at h
      obtain ⟨rfl, hrest⟩ := ih (nodup_append.1 h).2.1 htail
      exact ⟨rfl, hrest⟩

theorem not_mem_defs (h : ∀ o ∈ ops, ¬ o.dst? = some x) : x ∉ defs ops := by
  intro hx
  obtain ⟨o, ho, hdst⟩ := mem_filterMap.1 hx
  exact h o ho hdst

/-- The operation that defines a variable. -/
theorem exists_def_of_mem (h : x ∈ defs ops) :
    ∃ before o after, ops = before ++ o :: after ∧ o.dst? = some x ∧ x ∉ defs before := by
  obtain ⟨before, o, after, hops, ho, hnot⟩ := mem_split_first (mem_filterMap.1 h)
  exact ⟨before, o, after, hops, ho, not_mem_defs hnot⟩

theorem exists_lastDef_of_mem (h : x ∈ defs ops) :
    ∃ before o after, ops = before ++ o :: after ∧ o.dst? = some x ∧ x ∉ defs after := by
  obtain ⟨before, o, after, hops, ho, hnot⟩ := mem_split_last (mem_filterMap.1 h)
  exact ⟨before, o, after, hops, ho, not_mem_defs hnot⟩

theorem not_mem_trace (hp : ∀ c ∈ passed, x ∉ defs c.ops) (hb : x ∉ defs before) :
    x ∉ trace passed before := by
  rw [trace, mem_append, mem_flatMap]
  rintro (⟨c, hc, hx⟩ | hx)
  · exact hp c hc hx
  · exact hb hx

/-- The first definition of a variable on a path. -/
theorem Walk.firstDef (h : f.Walk passed b) (hb : b.ops = before ++ after)
    (hx : x ∈ trace passed before) :
    ∃ u d bd o ad, f.Walk u d ∧ d.ops = bd ++ o :: ad ∧ o.dst? = some x ∧ x ∉ trace u bd ∧
      ∃ rest, trace passed before = trace u bd ++ x :: rest := by
  by_cases hp : ∃ c ∈ passed, x ∈ defs c.ops
  · obtain ⟨u, d, w, rfl, hd, hu⟩ := mem_split_first hp
    obtain ⟨bd, o, ad, hops, ho, hnot⟩ := exists_def_of_mem hd
    refine ⟨u, d, bd, o, ad, h.splice.1, hops, ho, not_mem_trace hu hnot,
      defs ad ++ trace w before, ?_⟩
    simp [hops, defs_append, defs_cons, ho, trace]
  · have hmem : x ∈ defs before := by
      rw [trace, mem_append, mem_flatMap] at hx
      exact hx.resolve_left hp
    obtain ⟨bd, o, ad, rfl, ho, hnot⟩ := exists_def_of_mem hmem
    have hnone : ∀ c ∈ passed, x ∉ defs c.ops := fun c hc hxc => hp ⟨c, hc, hxc⟩
    refine ⟨passed, b, bd, o, ad ++ after, h, by simp [hb], ho, not_mem_trace hnone hnot,
      defs ad, ?_⟩
    simp [trace, defs_append, defs_cons, ho]

theorem mem_defs_of_split (hops : d.ops = bd ++ o :: ad)
    (ho : o.dst? = some x) : x ∈ defs d.ops := by
  simp [hops, defs_append, defs_cons, ho]

theorem StrictSSA.block_unique (hs : f.StrictSSA) (hd : d ∈ f.blocks) (hb : b ∈ f.blocks)
    (hxd : x ∈ defs d.ops) (hxb : x ∈ defs b.ops) : d = b :=
  eq_of_mem_flatMap (nodup_append.1 hs.assigned).2.1 hd hb hxd hxb

/-- A path that has defined a variable of a block has reached the block before. -/
theorem StrictSSA.reached (hs : f.StrictSSA) (hw : f.Walk passed d) (hd : d.ops = before ++ after)
    (hx : x ∈ trace passed before) (hb : b ∈ f.blocks) (hxb : x ∈ defs b.ops) :
    ∃ u, f.Walk u b ∧ (trace u []).length < (trace passed before).length ∧
      trace u [] ⊆ trace passed before := by
  obtain ⟨u, c, bc, o, ac, hu, hops, ho, -, rest, hsplit⟩ := hw.firstDef hd hx
  obtain rfl := hs.block_unique hu.mem hb (mem_defs_of_split hops ho) hxb
  have hle : (trace u []).Sublist (trace u bc) := by simp [trace]
  refine ⟨u, hu, ?_, ?_⟩
  · have := hle.length_le
    rw [hsplit, length_append, length_cons]
    omega
  · rw [hsplit]
    exact fun y hy => mem_append_left _ (hle.subset hy)

/-- A variable is defined in one block only, and there at one place. -/
theorem StrictSSA.def_unique (hs : f.StrictSSA) {o' : Op} (hd : d ∈ f.blocks)
    (hb : b ∈ f.blocks) (hops : d.ops = bd ++ o :: ad) (ho : o.dst? = some x)
    (hops' : b.ops = bd' ++ o' :: ad') (ho' : o'.dst? = some x) :
    d = b ∧ bd = bd' ∧ o = o' ∧ ad = ad' := by
  obtain rfl := hs.block_unique hd hb (mem_defs_of_split hops ho) (mem_defs_of_split hops' ho')
  refine ⟨rfl, ?_⟩
  have hone : (defs d.ops).Nodup := nodup_of_flatMap (nodup_append.1 hs.assigned).2.1 hd
  rw [hops] at hone hops'
  exact split_unique hone hops' ho ho'

/-- Where a variable may be used, its last definition comes after the last one of any
variable that is always defined before it. Otherwise a path could leave out the loop between the
first and the last definition of that variable, and there the use would have no definition. -/
theorem StrictSSA.fresh (hs : f.StrictSSA) (hne : x ≠ y)
    (hprec : ∀ u d bd o ad, f.Walk u d → d.ops = bd ++ o :: ad → o.dst? = some y → x ∈ trace u bd)
    (hw : f.Walk passed b) (hb : b.ops = before ++ after)
    (huse : ∀ u, f.Walk u b → y ∈ trace u before) :
    ∃ l l', trace passed before = l ++ y :: l' ∧ x ∉ l' := by
  -- where `x` is not yet defined, `y` is not either
  have hfirst : ∀ u d bd ad, f.Walk u d → d.ops = bd ++ ad → x ∉ trace u bd → y ∉ trace u bd := by
    intro u d bd ad hu hops hx hy
    obtain ⟨u', d', bd', o', ad', hu', hops', ho', _, rest, htrace⟩ := hu.firstDef hops hy
    have hmem := hprec u' d' bd' o' ad' hu' hops' ho'
    exact hx (htrace ▸ mem_append_left _ hmem)
  -- the last definition of `x` and what the path defines after it
  by_cases hx : x ∈ trace passed before
  · obtain ⟨u, d, bd, o, ad, hu, hops, ho, hxu, _⟩ := hw.firstDef hb hx
    have hyu := hfirst u d bd (o :: ad) hu hops hxu
    by_cases hbefore : x ∈ defs before
    · obtain ⟨bd', o', ad', rfl, ho', hlast⟩ := exists_lastDef_of_mem hbefore
      by_cases hy : y ∈ defs ad'
      · obtain ⟨l, l', hl⟩ := append_of_mem hy
        refine ⟨trace passed (bd' ++ [o']) ++ l, l', ?_, fun hmem => hlast (hl ▸ ?_)⟩
        · simp [trace, defs_append, defs_cons, hl]
        · exact mem_append_right _ (mem_cons_of_mem _ hmem)
      · exfalso
        have hbops : b.ops = bd' ++ o' :: (ad' ++ after) := by simp [hb]
        obtain ⟨rfl, rfl, rfl, rfl⟩ := hs.def_unique hu.mem hw.mem hops ho hbops ho'
        have huse' := huse u hu
        simp only [trace, defs_append, defs_cons] at huse' hyu
        grind
    · have hpassed : ∃ c ∈ passed, x ∈ defs c.ops := by
        rw [trace, mem_append, mem_flatMap] at hx
        exact hx.resolve_right hbefore
      obtain ⟨p, d', q, rfl, hd', hq⟩ := mem_split_last hpassed
      obtain ⟨bd', o', ad', hops', ho', hlast⟩ := exists_lastDef_of_mem hd'
      have hxq : x ∉ defs ad' ++ trace q before := by
        rw [mem_append]
        exact fun h' => h'.elim hlast (not_mem_trace hq hbefore)
      by_cases hy : y ∈ defs ad' ++ trace q before
      · obtain ⟨l, l', hl⟩ := append_of_mem hy
        refine ⟨trace p (bd' ++ [o']) ++ l, l', ?_, fun hmem => hxq (hl ▸ ?_)⟩
        · rw [trace_append, trace_cons, hops', defs_append, defs_cons]
          simp [trace, defs_append, defs_cons] at hl ⊢
          exact hl
        · exact mem_append_right _ (mem_cons_of_mem _ hmem)
      · exfalso
        have hd'mem : d' ∈ f.blocks := hw.passed_mem d' (by simp)
        obtain ⟨rfl, rfl, rfl, rfl⟩ := hs.def_unique hu.mem hd'mem hops ho hops' ho'
        have huse' := huse _ (hw.splice.2 _ hu)
        rw [trace_append, trace_cons, hops, defs_append, defs_cons] at huse'
        simp only [trace] at huse' hyu hy
        grind
  · obtain ⟨l, l', hl⟩ := append_of_mem (huse passed hw)
    refine ⟨l, l', hl, fun hmem => hx (hl ▸ ?_)⟩
    exact mem_append_right _ (mem_cons_of_mem _ hmem)

end Fresh

/-! ## Available variables -/

/-- Whether each use of an operation is one of the given variables or defined ahead of it. -/
def usesAhead (known : List ValueId) : List Op → Bool
  | [] => true
  | o :: rest => o.uses.all known.contains && usesAhead (o.dst?.toList ++ known) rest

/-- The variables that are defined at the end of a block, if some are available at its start. -/
def knownAt (available : BlockId → List ValueId) (b : Block) : List ValueId :=
  f.paramVars ++ available b.id ++ defs b.ops

/-- The variables that have to be defined at the end of a block: those it uses there, those of the
merges it leads to, and those available where it leads to. -/
def neededAt (available : BlockId → List ValueId) (b : Block) : List ValueId :=
  b.terminator.uses ++ (f.blocks.filter fun b' => b'.id ∈ b.terminator.successors).flatMap
    fun b' => b'.ops.flatMap (Op.usesFrom b.id) ++ available b'.id

/-- Whether the variables told to be available at the start of each block are, and suffice for all
uses. -/
def isStrict (available : BlockId → List ValueId) : Bool :=
  (f.blocks.map Block.id).Nodup && (f.values.map Prod.fst).Nodup &&
    (f.paramVars ++ f.blocks.flatMap fun b => defs b.ops).Nodup &&
    (f.blocks.head?.all fun b => (available b.id).all f.paramVars.contains) &&
    f.blocks.all fun b => (defs b.ops).all (f.values.map Prod.fst).contains &&
      usesAhead (f.paramVars ++ available b.id) b.ops &&
      (f.neededAt available b).all (f.knownAt available b).contains

section Available

variable {f} {available : BlockId → List ValueId} {v : ValueId}

theorem mem_of_usesAhead {known : List ValueId} {before after : List Op} {o : Op}
    (h : usesAhead known (before ++ o :: after) = true) (hv : v ∈ o.uses) :
    v ∈ known ∨ v ∈ defs before := by
  induction before generalizing known with
  | nil =>
    have h := (Bool.and_eq_true_iff.1 h).1
    exact .inl (by simpa using all_eq_true.1 h v hv)
  | cons o' before ih =>
    have h := (Bool.and_eq_true_iff.1 h).2
    rw [defs_cons, mem_append]
    rcases ih h with hmem | hmem
    · rcases mem_append.1 hmem with hmem | hmem
      · exact .inr (.inl hmem)
      · exact .inl hmem
    · exact .inr (.inr hmem)

/-- What is available at the start of a block is defined on every path to it. -/
theorem Walk.defined_of_available
    (hstart : ∀ b, f.blocks.head? = some b → ∀ v ∈ available b.id, v ∈ f.paramVars)
    (hneeded : ∀ b ∈ f.blocks, ∀ v ∈ f.neededAt available b, v ∈ f.knownAt available b)
    {passed : List Block} {b : Block} (hw : f.Walk passed b)
    (hv : v ∈ available b.id) : f.Defined passed [] v := by
  induction hw generalizing v with
  | start hhead => exact .inl (hstart _ hhead v hv)
  | @step passed p b hw hb hs ih =>
    have hneed : v ∈ f.neededAt available p := mem_append_right _
      (mem_flatMap.2 ⟨b, mem_filter.2 ⟨hb, by simpa using hs⟩, mem_append_right _ hv⟩)
    have hknown := hneeded p hw.mem v hneed
    simp only [knownAt, mem_append] at hknown
    rcases hknown with (hparam | havail) | hdef
    · exact .inl hparam
    · exact (ih havail).imp id fun hmem => by simpa [trace] using .inl (by simpa [trace] using hmem)
    · exact .inr (by simpa [trace] using .inr hdef)

/-- Variables that are available suffice for strict form. -/
theorem strictSSA_of_isStrict (available : BlockId → List ValueId)
    (h : f.isStrict available = true) : f.StrictSSA := by
  simp only [isStrict, Bool.and_eq_true, decide_eq_true_eq, all_eq_true, contains_iff_mem] at h
  obtain ⟨⟨⟨⟨hblocks, hdeclared⟩, hassigned⟩, hstart⟩, hall⟩ := h
  have hstart : ∀ b, f.blocks.head? = some b → ∀ v ∈ available b.id, v ∈ f.paramVars := by
    intro b hb v hv
    rw [hb] at hstart
    simpa using all_eq_true.1 hstart v hv
  have havailable : ∀ {passed b}, f.Walk passed b → ∀ {before : List Op} {v : ValueId},
      (v ∈ f.paramVars ++ available b.id ∨ v ∈ defs before) → f.Defined passed before v := by
    intro passed b hw before v hv
    rcases hv with hv | hv
    · rcases mem_append.1 hv with hv | hv
      · exact .inl hv
      · exact (hw.defined_of_available hstart (fun b hb => (hall b hb).2) hv).imp id fun hmem => by
          simpa [trace] using .inl (by simpa [trace] using hmem)
    · exact .inr (mem_append_right _ hv)
  refine ⟨hblocks, hdeclared, hassigned, fun b hb => (hall b hb).1.1,
    fun passed b before o after hw hops v hv => ?_, fun passed b hw v hv => ?_,
    fun passed b b' hw hb' hsucc o ho v hv => ?_⟩
  · have huses := (hall b hw.mem).1.2
    rw [hops] at huses
    exact havailable hw (mem_of_usesAhead huses hv)
  · have hknown := (hall b hw.mem).2 v (mem_append_left _ hv)
    exact havailable hw (mem_append.1 hknown)
  · have hknown := (hall b hw.mem).2 v (mem_append_right _ (mem_flatMap.2
      ⟨b', mem_filter.2 ⟨hb', by simpa using hsucc⟩,
        mem_append_left _ (mem_flatMap.2 ⟨o, ho, hv⟩)⟩))
    exact havailable hw (mem_append.1 hknown)

end Available

end Function

end Lir

end KernelForge
