import Mathlib.Data.List.Flatten
import KernelForge.Proofs.Layout.Apart

/-!
# Which definition an id belongs to

A variable is either the result of an instruction of its own operation, or another name for the id
of a variable it is made from, or a declaration. Following the names back leads to the variable
whose operation has the id as a result. In single-assignment form that variable is defined first on
every path, and where the other may be used it has not been defined again since (`Owned.fresh`).
-/

namespace KernelForge.Codegen

open List BlockLayout FunctionLayout Line Select
open Lir (Kind ValueId BlockId ArrayId)
open Spirv

/-! ## Where ids come from -/

/-- Ids from outside the blocks of a function. -/
inductive Names.Outer (n : Names) : Id → Prop
  | type {k : Kind} {id : Id} (h : n.session.types.get? k = some id) : Outer n id
  | constant {k : String × Kind} {id : Id} (h : n.session.constants.get? k = some id) : Outer n id
  | pointer {k : Id × StorageClass} {id : Id} (h : n.session.pointers.get? k = some id) : Outer n id
  | array {a : ArrayId} {slot : ArraySlot} (h : n.symbols.arrays.get? a = some slot) :
      Outer n slot.storageVar
  | coordinate {query : Lir.ThreadQuery} {id : Id} (h : n.scope.builtins.get? query = some id) :
      Outer n id
  | callee {name : String} {signature : Signature}
      (h : n.scope.callees.get? name = some signature) : Outer n signature.id

/-- Where an id of a recipe comes from: it is given, the result of one of the instructions, a used
variable outside spill mode, or a declaration. -/
def Source (n : Names) (given : List Id) (c : List Instruction) (uses : List ValueId) (id : Id) :
    Prop :=
  id ∈ given ∨ id ∈ results c ∨
    (∃ v ∈ uses, n.slot? v = none ∧ n.symbols.resolve? v = some id) ∨ n.Outer id

variable {o : Lir.Op} {c : List Instruction} {slot : ArraySlot}

section Sources

variable {n : Names} {given ids : List Id} {c c' : List Instruction} {uses uses' : List ValueId}
  {id : Id}

theorem results_append (c c' : List Instruction) : results (c ++ c') = results c ++ results c' :=
  filterMap_append

theorem Source.mono (h : Source n given c uses id) (hc : results c ⊆ results c')
    (hu : uses ⊆ uses') : Source n given c' uses' id := by
  rcases h with h | h | ⟨v, hv, h⟩ | h
  · exact .inl h
  · exact .inr (.inl (hc h))
  · exact .inr (.inr (.inl ⟨v, hu hv, h⟩))
  · exact .inr (.inr (.inr h))

theorem ExprCode.source {e : Expr} (h : ExprCode n ids e c id) :
    Source n ids c (Line.uses (.value e)) id := by
  cases h with
  | slot | instr | math => exact .inr (.inl (by simp [results]))
  | use hslot hv => exact .inr (.inr (.inl ⟨_, by simp [Line.uses], hslot, hv⟩))
  | constant h => exact .inr (.inr (.inr (.constant h)))
  | type h => exact .inr (.inr (.inr (.type h)))
  | pointer _ h => exact .inr (.inr (.inr (.pointer h)))
  | array h => exact .inr (.inr (.inr (.array h)))
  | coordinate h => exact .inr (.inr (.inr (.coordinate h)))
  | callee h => exact .inr (.inr (.inr (.callee h)))

variable {v : ValueId}

/-- The variable an effect defines has an id of the effect or one of the values so far. -/
theorem EffectCode.defined {e : Effect} (h : EffectCode n ids e c) (hv : v ∈ defs (.effect e))
    : ∃ id, n.symbols.resolve? v = some id ∧ (id ∈ results c ∨ id ∈ ids) := by
  cases h with
  | perform => cases hv
  | define _ _ hr | defineMath _ _ hr | copy _ _ _ hr =>
    rw [mem_singleton.1 hv]
    exact ⟨_, hr, .inl (by simp [results])⟩
  | shared hs hr =>
    rw [mem_singleton.1 hv]
    exact ⟨_, hr, .inr (mem_of_getElem? hs)⟩

variable {ls : List Line}

theorem LinesCode.sources_after {ids' : List Id} (h : LinesCode n ids ls c ids')
    (hgiven : ∀ id ∈ ids, Source n given c' uses id) :
    ∀ v ∈ ls.flatMap defs, ∃ id, n.symbols.resolve? v = some id ∧
      Source n given (c' ++ c) (uses ++ ls.flatMap Line.uses) id := by
  induction h generalizing c' uses with
  | nil => exact fun v hv => nomatch hv
  | @value ids ids' e ls c₁ c₂ id he hls ih =>
    have hstep : ∀ id' ∈ ids ++ [id],
        Source n given (c' ++ c₁) (uses ++ Line.uses (.value e)) id' := by
      intro id' hid'
      rcases mem_append.1 hid' with hid' | hid'
      · exact (hgiven id' hid').mono (by simp [results_append]) (by simp)
      · rw [mem_singleton.1 hid']
        rcases he.source with hin | hin | ⟨v, hv, hin⟩ | hin
        · exact (hgiven id hin).mono (by simp [results_append]) (by simp)
        · exact .inr (.inl (by simp [results_append, hin]))
        · exact .inr (.inr (.inl ⟨v, mem_append_right _ hv, hin⟩))
        · exact .inr (.inr (.inr hin))
    have hdefs := ih hstep
    simp only [append_assoc] at hdefs
    exact hdefs
  | @effect ids ids' e ls c₁ c₂ he hls ih =>
    have hstep : ∀ id' ∈ ids, Source n given (c' ++ c₁) uses id' := fun id' hid' =>
      (hgiven id' hid').mono (by simp [results_append]) (List.Subset.refl _)
    have hdefs := ih hstep
    rw [append_assoc] at hdefs
    have huses : (Line.effect e :: ls).flatMap Line.uses = ls.flatMap Line.uses := by
      rfl
    intro v hv
    rcases mem_append.1 hv with hv | hv
    · obtain ⟨id, hr, hin | hin⟩ := he.defined hv
      · exact ⟨id, hr, .inr (.inl (by simp [results_append, hin]))⟩
      · exact ⟨id, hr, (hgiven id hin).mono (by simp [results_append]) (by simp)⟩
    · exact hdefs v hv

/-- The ids of the variables that a recipe defines have a source. -/
theorem LinesCode.sources (h : LinesCode n given ls c ids) :
    ∀ v ∈ ls.flatMap defs, ∃ id, n.symbols.resolve? v = some id ∧
      Source n given c (ls.flatMap Line.uses) id := by
  have hgiven : ∀ id ∈ given, Source n given [] [] id := fun id hid => .inl hid
  simpa using h.sources_after hgiven

/-- The variable an operation defines has an id of the operation, or that of a variable it uses, or
a declaration. -/
theorem SelectionCode.op_source {u : Unit}
    (h : SelectionCode n [] (op o) c u ids) (hv : o.dst? = some v) :
    ∃ id, n.symbols.resolve? v = some id ∧ Source n [] c o.uses id := by
  obtain ⟨hr, hl⟩ := h
  obtain ⟨_, ls, hlines, huses, hdefs, _⟩ := op_writes o hr
  rw [hlines] at hl
  have hmem : v ∈ ls.flatMap defs := by
    rw [hdefs, hv]
    exact mem_singleton_self v
  obtain ⟨id, hid, hsource⟩ := hl.sources v hmem
  exact ⟨id, hid, hsource.mono (List.Subset.refl _) huses⟩

/-- The ids of parameters come from outside the blocks. -/
theorem SelectionCode.params_source {u : Unit} (h : SelectionCode n given params c u ids)
    (hv : v ∈ n.scope.function.paramVars) :
    ∃ id, n.symbols.resolve? v = some id ∧ (id ∈ given ∨ id ∈ results c ∨ n.Outer id) := by
  obtain ⟨hr, hl⟩ := h
  obtain ⟨ls, hlines, huses, hdefs, _⟩ := params_ok hr
  rw [nil_append] at hlines
  rw [hlines] at hl
  obtain ⟨id, hid, hsource⟩ := hl.sources v (by rw [hdefs]; exact hv)
  refine ⟨id, hid, ?_⟩
  rw [huses] at hsource
  rcases hsource with h | h | ⟨w, hw, _⟩ | h
  · exact .inl h
  · exact .inr (.inl h)
  · cases hw
  · exact .inr (.inr h)

end Sources

/-! ## Pieces of a function -/

theorem results_flatMap {α : Type} (g : α → List Instruction) (l : List α) :
    results (l.flatMap g) = l.flatMap fun a => results (g a) := by
  induction l with
  | nil => rfl
  | cons a l ih => rw [flatMap_cons, results_append, ih, flatMap_cons]

namespace BlockLayout

/-- The instructions after the label. -/
def code (l : BlockLayout) : List Instruction := l.merges ++ l.tail

/-- The instructions of a block by the variable that their operation defines. -/
def pieces (b : Lir.Block) (l : BlockLayout) : List (Option ValueId × List Instruction) :=
  ((leadingMerges b.ops).zip l.merges).map (fun e => (some e.1.1, [e.2])) ++ (none, l.stores) ::
    ((b.ops.drop (leadingMerges b.ops).length).zip l.ops).map (fun e => (e.1.dst?, e.2)) ++
    [(none, l.ending ++ [l.last])]

end BlockLayout

namespace FunctionLayout

def code (l : FunctionLayout) : List Instruction := l.blocks.flatMap BlockLayout.code

/-- The instructions of the blocks by the variable that their operation defines. -/
def pieces (f : Lir.Function) (l : FunctionLayout) : List (Option ValueId × List Instruction) :=
  (f.blocks.zip l.blocks).flatMap fun e => e.2.pieces e.1

/-- An operation that defines a variable has an instruction with a result. -/
def Makes (f : Lir.Function) (l : FunctionLayout) (x : ValueId) (id : Id) : Prop :=
  ∃ c, (some x, c) ∈ l.pieces f ∧ id ∈ results c

end FunctionLayout

section Pieces

variable {n : Names}

variable {is stores : List Instruction}

variable {ms : List Merge}

theorem MergesCode.length_eq (h : MergesCode n ms is stores) : ms.length = is.length := by
  induction h with
  | nil => rfl
  | cons _ _ _ ih => simp [ih]

variable {cs : List (List Instruction)}

variable {os : List Lir.Op}

theorem OpsCode.length_eq (h : OpsCode n os cs) : os.length = cs.length := by
  induction h with
  | nil => rfl
  | cons _ _ ih => simp [ih]

variable {bs : List Lir.Block} {ls : List BlockLayout}

theorem BlocksCode.length_eq (h : BlocksCode n bs ls) : bs.length = ls.length := by
  induction h with
  | nil => rfl
  | cons _ _ ih => simp [ih]

theorem BlocksCode.of_mem (h : BlocksCode n bs ls) {e : Lir.Block × BlockLayout}
    (he : e ∈ bs.zip ls) : BlockCode n e.1 e.2 := by
  induction h with
  | nil => cases he
  | cons hb _ ih =>
    rcases mem_cons.1 he with rfl | he
    · exact hb
    · exact ih he

variable {b : Lir.Block} {l : BlockLayout}

theorem BlocksCode.layout (h : BlocksCode n bs ls) (hb : b ∈ bs) : ∃ l, (b, l) ∈ bs.zip ls := by
  rw [← map_fst_zip (Nat.le_of_eq h.length_eq)] at hb
  obtain ⟨⟨_, l⟩, he, rfl⟩ := mem_map.1 hb
  exact ⟨l, he⟩

theorem BlocksCode.block (h : BlocksCode n bs ls) (hl : l ∈ ls) : ∃ b, (b, l) ∈ bs.zip ls := by
  rw [← map_snd_zip (Nat.le_of_eq h.length_eq.symm)] at hl
  obtain ⟨⟨b, _⟩, he, rfl⟩ := mem_map.1 hl
  exact ⟨b, he⟩

theorem BlockCode.pieces_code (h : BlockCode n b l) : (l.pieces b).flatMap Prod.snd = l.code := by
  have hmerges : ((leadingMerges b.ops).zip l.merges).flatMap (fun e => [e.2]) = l.merges := by
    rw [← map_eq_flatMap]
    exact map_snd_zip (Nat.le_of_eq h.merges.length_eq.symm)
  have hops : ((b.ops.drop (leadingMerges b.ops).length).zip l.ops).flatMap Prod.snd =
      l.ops.flatten := by
    rw [flatMap_def, map_snd_zip (Nat.le_of_eq h.ops.length_eq.symm)]
  rw [BlockLayout.pieces, flatMap_append, flatMap_append, flatMap_cons, flatMap_map, flatMap_map]
  rw [hmerges, hops]
  simp [BlockLayout.code, BlockLayout.tail]

theorem BlocksCode.pieces_code (h : BlocksCode n bs ls) :
    ((bs.zip ls).flatMap fun e => e.2.pieces e.1).flatMap Prod.snd =
      ls.flatMap BlockLayout.code := by
  induction h with
  | nil => rfl
  | cons hb _ ih =>
    rw [zip_cons_cons, flatMap_cons, flatMap_append, ih, hb.pieces_code, flatMap_cons]

/-- The variable of a piece is defined in its block. -/
theorem BlockLayout.defs_of_piece {x : ValueId}
    (h : (some x, c) ∈ l.pieces b) : x ∈ Lir.defs b.ops := by
  rw [leadingMerges_defs, mem_append]
  simp only [pieces, mem_append, mem_cons, mem_map, not_mem_nil,
    or_false, false_or, Prod.mk.injEq, reduceCtorEq, false_and] at h
  rcases h with ⟨e, he, hx, -⟩ | ⟨e, he, hx, -⟩
  · exact .inl (mem_map.2 ⟨e.1, (of_mem_zip he).1, Option.some.inj hx⟩)
  · exact .inr (mem_filterMap.2 ⟨e.1, (of_mem_zip he).1, hx⟩)

theorem leadingMerges_append (os : List Lir.Op) :
    os = (leadingMerges os).map (fun m => .phi m.1 m.2) ++ os.drop (leadingMerges os).length := by
  fun_induction leadingMerges os with
  | case1 dst incoming rest ih => exact congrArg _ ih
  | case2 => simp

theorem MergesCode.of_mem (h : MergesCode n ms is stores) {m : Merge}
    (hm : m ∈ ms) : ∃ i, (m, i) ∈ ms.zip is ∧ MergeCode n m i := by
  induction h with
  | nil => cases hm
  | @cons _ _ i _ _ _ hi _ _ ih =>
    rcases mem_cons.1 hm with rfl | hm
    · exact ⟨i, mem_cons_self, hi⟩
    · obtain ⟨i', hmem, hi'⟩ := ih hm
      exact ⟨i', mem_cons_of_mem _ hmem, hi'⟩

theorem OpsCode.of_mem (h : OpsCode n os cs) (ho : o ∈ os) :
    ∃ c u ids, (o, c) ∈ os.zip cs ∧ SelectionCode n [] (op o) c u ids := by
  induction h with
  | nil => cases ho
  | @cons _ _ c _ u ids hc _ ih =>
    rcases mem_cons.1 ho with rfl | ho
    · exact ⟨c, u, ids, mem_cons_self, hc⟩
    · obtain ⟨c', u', ids', hmem, hc'⟩ := ih ho
      exact ⟨c', u', ids', mem_cons_of_mem _ hmem, hc'⟩

end Pieces

/-! ## Ids of one function -/

/-- An emitted function whose ids are its own. -/
structure Owned (n : Names) (id : Id) (l : FunctionLayout) (e : Function) : Prop
    extends FunctionCode n id l e, Apart n e where
  declares : n.session.Declares

theorem mem_or_get?_of_insertAll {κ α : Type} [DecidableEq κ] {es : List (κ × α)} {t : Table κ α}
    {k : κ} {a : α} (h : (t.insertAll es).get? k = some a) : (k, a) ∈ es ∨ t.get? k = some a := by
  induction es generalizing t with
  | nil => exact .inr h
  | cons e es ih =>
    rcases ih (t := t.insert e.1 e.2) h with h | h
    · exact .inl (mem_cons_of_mem _ h)
    · rcases Table.get?_insert_cases h with ⟨rfl, rfl⟩ | h
      · exact .inl mem_cons_self
      · exact .inr h

variable {as : List Lir.ArrayDecl} {slots : List (ArrayId × ArraySlot)}

variable {s : Session} {a : ArrayId}

theorem GroupsCode.mem_globals (h : GroupsCode s as slots) (hs : (a, slot) ∈ slots) :
    slot.storageVar ∈ results s.draft.module.globals := by
  induction h with
  | nil => cases hs
  | cons _ _ hg _ ih =>
    rcases mem_cons.1 hs with heq | hs
    · cases heq
      exact mem_filterMap.2 ⟨_, hg, rfl⟩
    · exact ih hs

theorem ArraysCode.mem_results (h : ArraysCode s as slots c) (hs : (a, slot) ∈ slots) :
    slot.storageVar ∈ results c := by
  induction h with
  | nil => cases hs
  | cons _ _ _ ih =>
    rcases mem_cons.1 hs with heq | hs
    · cases heq
      exact mem_cons_self
    · exact mem_cons_of_mem _ (ih hs)

theorem results_params (params : List (Id × Id)) :
    results (params.map paramOf) = params.map Prod.snd := by
  induction params with
  | nil => rfl
  | cons e params ih => exact congrArg (e.2 :: ·) ih

theorem FunctionLayout.code_sublist (l : FunctionLayout) :
    (results l.code).Sublist (l.blocks.flatMap fun b => b.label :: results b.code) := by
  rw [FunctionLayout.code, results_flatMap]
  exact .flatMap_right l.blocks fun b _ => sublist_cons_self _ _

namespace Owned

variable {n : Names} {id i : Id} {l : FunctionLayout} {e : Function} (h : Owned n id l e)

include h

theorem blocksCode : BlocksCode n n.scope.function.blocks l.blocks := by
  obtain ⟨_, _, _, _, hbody⟩ := h.code
  exact hbody.blocks

theorem results_inner :
    results e.inner = (l.params.map Prod.snd ++ l.first :: results l.prologue) ++
      (l.blocks.flatMap (fun b => b.label :: results b.code) ++ n.scope.returnBlock.toList) := by
  have hleaving : results (n.scope.leaving.flatMap Block.instructions) =
      n.scope.returnBlock.toList := by
    unfold Scope.leaving
    cases n.scope.returnBlock <;> rfl
  have hblocks : results ((l.blocks.map block).flatMap Block.instructions) =
      l.blocks.flatMap fun b => b.label :: results b.code := by
    rw [flatMap_map, results_flatMap]
    rfl
  rw [Function.inner, h.params, FunctionCode.blocks h.toFunctionCode, flatMap_append,
    emitted, flatMap_cons, results_append, results_params, results_append,
    hleaving, results_append, hblocks]
  simp [Block.instructions, results]

theorem code_nodup : (results l.code).Nodup := by
  have hnodup := h.nodup
  rw [h.results_inner] at hnodup
  exact (nodup_append.1 (nodup_append.1 hnodup).2.1).1.sublist l.code_sublist

theorem not_code_of_prologue (hi : i ∈ l.params.map Prod.snd ++ l.first :: results l.prologue) :
    i ∉ results l.code := by
  have hnodup := h.nodup
  rw [h.results_inner] at hnodup
  exact fun hin => (nodup_append.1 hnodup).2.2 i hi i
    (mem_append_left _ (l.code_sublist.subset hin)) rfl

theorem not_code_of_not_inner (hi : i ∉ results e.inner) : i ∉ results l.code := by
  rw [h.results_inner] at hi
  exact fun hin =>
    hi (mem_append_right _ (mem_append_left _ (l.code_sublist.subset hin)))

theorem not_code_of_storage (hi : i ∈ results l.storage) : i ∉ results l.code := by
  refine h.not_code_of_prologue (mem_append_right _ (mem_cons_of_mem _ ?_))
  rw [prologue, results_append, results_append]
  exact mem_append_left _ (mem_append_left _ hi)

/-- A declaration is no result inside the blocks. -/
theorem outer_not_code (ho : n.Outer i) : i ∉ results l.code := by
  cases ho with
  | type hk => exact h.not_code_of_not_inner (h.globals _ (h.declares.type_mem hk))
  | constant hk => exact h.not_code_of_not_inner (h.globals _ (h.declares.constant_mem hk))
  | pointer hk =>
      exact h.not_code_of_not_inner (h.globals _ (h.declares.pointers _ _ _ hk).mem_globals)
  | coordinate hq => exact h.not_code_of_not_inner (h.builtins _ _ hq)
  | callee hc => exact h.not_code_of_not_inner (h.callees _ _ hc)
  | @array a slot ha =>
    obtain ⟨entry, slots, _, hgroups, hbody⟩ := h.code
    obtain ⟨arrays, _, ca, cs, hc, harrays, hall, _⟩ := hbody.prologue.storage.code
    rw [hall] at ha
    rcases mem_or_get?_of_insertAll ha with hmem | hget
    · refine h.not_code_of_storage ?_
      rw [hc, results_append]
      exact mem_append_left _ (harrays.mem_results hmem)
    · rcases mem_or_get?_of_insertAll hget with hmem | hnone
      · exact h.not_code_of_not_inner (h.globals _ (hgroups.mem_globals hmem))
      · cases hnone

variable {v : ValueId}

/-- A parameter is no result inside the blocks. -/
theorem param_not_code (hv : v ∈ n.scope.function.paramVars) :
    ∃ i, n.symbols.resolve? v = some i ∧ i ∉ results l.code := by
  obtain ⟨_, _, _, _, hbody⟩ := h.code
  obtain ⟨u, ids, hbinding⟩ := hbody.prologue.binding
  obtain ⟨i, hi, hgiven | hresult | houter⟩ := hbinding.params_source hv
  · exact ⟨i, hi, h.not_code_of_prologue (mem_append_left _ hgiven)⟩
  · refine ⟨i, hi, h.not_code_of_prologue (mem_append_right _ (mem_cons_of_mem _ ?_))⟩
    rw [prologue, results_append, results_append]
    exact mem_append_left _ (mem_append_right _ hresult)
  · exact ⟨i, hi, h.outer_not_code houter⟩

/-! ## Owners -/

/-- An id inside the blocks belongs to one piece. -/
theorem piece_unique {p p' : Option ValueId × List Instruction}
    (hp : p ∈ l.pieces n.scope.function) (hp' : p' ∈ l.pieces n.scope.function)
    (hi : i ∈ results p.2) (hi' : i ∈ results p'.2) : p = p' := by
  refine eq_of_mem_flatMap (g := fun p => results p.2) ?_ hp hp' hi hi'
  rw [← results_flatMap, FunctionLayout.pieces, h.blocksCode.pieces_code]
  exact h.code_nodup

theorem makes_unique {x y : ValueId} (hx : l.Makes n.scope.function x i)
    (hy : l.Makes n.scope.function y i) : x = y := by
  obtain ⟨c, hc, hi⟩ := hx
  obtain ⟨c', hc', hi'⟩ := hy
  have hpieces := h.piece_unique hc hc' hi hi'
  exact Option.some.inj (congrArg Prod.fst hpieces)

theorem mem_of_makes {x : ValueId} (hx : l.Makes n.scope.function x i) : i ∈ results l.code := by
  obtain ⟨c, hc, hi⟩ := hx
  rw [FunctionLayout.code, ← h.blocksCode.pieces_code, results_flatMap]
  exact mem_flatMap.2 ⟨_, hc, hi⟩

/-- A variable has the id of an instruction of its operation, or that of a variable that its
operation uses, or a declaration. -/
theorem source {b : Lir.Block} (hb : b ∈ n.scope.function.blocks)
    (ho : o ∈ b.ops) (hv : o.dst? = some v) :
    ∃ i, n.symbols.resolve? v = some i ∧ (l.Makes n.scope.function v i ∨
      (∃ w ∈ o.uses, n.symbols.resolve? w = some i) ∨ n.Outer i) := by
  obtain ⟨lb, hlb⟩ := h.blocksCode.layout hb
  have hcode := h.blocksCode.of_mem hlb
  have hpiece : ∀ {c}, (some v, c) ∈ lb.pieces b → (some v, c) ∈ l.pieces n.scope.function :=
    fun hc => mem_flatMap.2 ⟨(b, lb), hlb, hc⟩
  rw [leadingMerges_append b.ops, mem_append] at ho
  rcases ho with ho | ho
  · obtain ⟨m, hm, rfl⟩ := mem_map.1 ho
    obtain rfl : m.1 = v := Option.some.inj hv
    obtain ⟨i, hzip, hi⟩ := hcode.merges.of_mem hm
    cases hi with
    | @intro _ _ result _ _ hr =>
      refine ⟨result, hr, .inl ⟨_, hpiece (mem_append_left _ (mem_append_left _
        (mem_map.2 ⟨_, hzip, rfl⟩))), ?_⟩⟩
      exact mem_singleton_self result
  · obtain ⟨c, u, ids, hzip, hc⟩ := hcode.ops.of_mem ho
    obtain ⟨i, hi, hgiven | hresult | ⟨w, hw, _, hwi⟩ | houter⟩ := hc.op_source hv
    · cases hgiven
    · refine ⟨i, hi, .inl ⟨c, hpiece (mem_append_left _ (mem_append_right _ ?_)), hresult⟩⟩
      exact mem_cons_of_mem _ (mem_map.2 ⟨_, hzip, by rw [hv]⟩)
    · exact ⟨i, hi, .inr (.inl ⟨w, hw, hwi⟩)⟩
    · exact ⟨i, hi, .inr (.inr houter)⟩

variable {passed : List Lir.Block} {b : Lir.Block} {before after : List Lir.Op} {x y v : ValueId}

/-- A variable with an id inside the blocks comes after the definition of the variable
that makes the id. -/
theorem root (hs : n.scope.function.StrictSSA) (hw : n.scope.function.Walk passed b)
    (hb : b.ops = before ++ after) (hv : n.scope.function.Defined passed before v)
    (hr : n.symbols.resolve? v = some i) (hi : i ∈ results l.code) :
    ∃ x, l.Makes n.scope.function x i ∧ x ∈ Lir.Function.trace passed before := by
  -- by induction on the length of the path up to the definition
  generalize hlen : (Lir.Function.trace passed before).length = len
  induction len using Nat.strongRecOn generalizing passed b before after v with
  | ind len ih =>
    rcases hv with hparam | hv
    · obtain ⟨i', hr', hnot⟩ := h.param_not_code hparam
      cases hr.symm.trans hr'
      exact absurd hi hnot
    · obtain ⟨u, d, bd, o, ad, hu, hops, ho, _, rest, htrace⟩ := hw.firstDef hb hv
      have hmem : o ∈ d.ops := by simp [hops]
      obtain ⟨i', hr', hsource⟩ := h.source hu.mem hmem ho
      cases hr.symm.trans hr'
      rcases hsource with hmakes | ⟨w, hwuse, hwr⟩ | houter
      · exact ⟨v, hmakes, hv⟩
      · have hdefined := hs.ops u d bd o ad hu hops w hwuse
        have hshort : (Lir.Function.trace u bd).length < len := by
          rw [← hlen, htrace, length_append, length_cons]
          omega
        obtain ⟨x, hx, hmem⟩ := ih _ hshort hu hops hdefined hwr rfl
        exact ⟨x, hx, htrace ▸ mem_append_left _ hmem⟩
      · exact absurd hi (h.outer_not_code houter)

/-! ## Labels -/

theorem labels_sublist :
    (l.first :: (l.blocks.map label ++ n.scope.returnBlock.toList)).Sublist
      (results e.inner) := by
  rw [h.results_inner]
  have hblocks : (l.blocks.map label).Sublist
      (l.blocks.flatMap fun b => b.label :: results b.code) := by
    rw [map_eq_flatMap]
    exact Sublist.flatMap_right l.blocks fun b _ => (nil_sublist _).cons_cons _
  have hfirst : [l.first].Sublist (l.params.map Prod.snd ++ l.first :: results l.prologue) :=
    ((nil_sublist _).cons_cons _).trans (sublist_append_right _ _)
  exact hfirst.append (hblocks.append (List.Sublist.refl _))

theorem labels_nodup :
    (l.first :: (l.blocks.map label ++ n.scope.returnBlock.toList)).Nodup :=
  h.nodup.sublist h.labels_sublist

variable {t : BlockId}

/-- A name of a block is the name of one of the function's blocks, or its label opens none. -/
theorem label_cases (ht : n.symbols.labels.get? t = some i) :
    (∃ b lb, (b, lb) ∈ n.scope.function.blocks.zip l.blocks ∧ b.id = t ∧ lb.label = i) ∨
      i ∉ l.first :: (l.blocks.map label ++ n.scope.returnBlock.toList) := by
  rcases h.labels t i ht with howns | hnot
  · obtain ⟨b, hb, rfl⟩ := mem_map.1 howns
    obtain ⟨lb, hlb⟩ := h.blocksCode.layout hb
    have hlabel := (h.blocksCode.of_mem hlb).label
    exact .inl ⟨b, lb, hlb, rfl, Option.some.inj (hlabel.symm.trans ht)⟩
  · exact .inr fun hin => hnot (h.labels_sublist.subset hin)

/-- A label is the label of one block. -/
theorem layout_unique {b' : Lir.Block} {lb lb' : BlockLayout}
    (hb : (b, lb) ∈ n.scope.function.blocks.zip l.blocks)
    (hb' : (b', lb') ∈ n.scope.function.blocks.zip l.blocks) (hl : lb.label = lb'.label) :
    b = b' ∧ lb = lb' := by
  have hzip : ((n.scope.function.blocks.zip l.blocks).flatMap fun e => [e.2.label]).Nodup := by
    rw [← map_eq_flatMap, ← Function.comp_def BlockLayout.label Prod.snd, ← map_map,
      map_snd_zip (Nat.le_of_eq h.blocksCode.length_eq.symm)]
    exact (nodup_append.1 (nodup_cons.1 h.labels_nodup).2).1
  exact Prod.mk.inj (eq_of_mem_flatMap hzip hb hb' (mem_singleton_self _) (mem_singleton.2 hl))

/-- A label names one block. -/
theorem label_eq {lb : BlockLayout} (hb : (b, lb) ∈ n.scope.function.blocks.zip l.blocks)
    (ht : n.symbols.labels.get? t = some lb.label) : t = b.id := by
  rcases h.label_cases ht with ⟨b', lb', hb', rfl, heq⟩ | hnot
  · rw [(h.layout_unique hb' hb heq).1]
  · have hlb : lb ∈ l.blocks := (of_mem_zip hb).2
    exact absurd (mem_cons_of_mem _ (mem_append_left _ (mem_map.2 ⟨lb, hlb, rfl⟩))) hnot

end Owned

end KernelForge.Codegen
