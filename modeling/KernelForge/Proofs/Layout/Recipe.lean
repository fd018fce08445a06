import KernelForge.Proofs.Layout.Session
import KernelForge.Proofs.Ledger.Body

/-!
# The instructions of a recipe

What the lines of a recipe become, told without the emitter: `LinesCode n ids ls c ids'` says that
under the names `n` the lines `ls` are the instructions `c`. The names are those at the end of the
module; a name that an emitter found on the way is still the same there. In spill mode a use is one
load and a definition is followed by one store.
-/

namespace KernelForge.Codegen

open List hiding get set
open Lir (Kind ValueId ArrayId)
open Spirv

/-! ## Names -/

/-- Later names of the same function. -/
structure Symbols.Sees (t t' : Symbols) : Prop where
  slots : t'.slots = t.slots
  arrays : t'.arrays = t.arrays
  labels : ∀ block id, t.labels.get? block = some id → t'.labels.get? block = some id
  values : ∀ v id, t.resolve? v = some id → t'.resolve? v = some id

namespace Symbols.Sees

variable {t t' t'' : Symbols}

theorem refl (t : Symbols) : t.Sees t := ⟨rfl, rfl, fun _ _ h => h, fun _ _ h => h⟩

theorem trans (h : t.Sees t') (h' : t'.Sees t'') : t.Sees t'' where
  slots := h'.slots.trans h.slots
  arrays := h'.arrays.trans h.arrays
  labels block id hb := h'.labels block id (h.labels block id hb)
  values v id hv := h'.values v id (h.values v id hv)

end Symbols.Sees

/-- The ids of everything a function under assembly can name. -/
structure Names where
  scope : Scope
  session : Session
  symbols : Symbols

namespace Names

/-- The slot of a variable, in spill mode. -/
def slot? (n : Names) (v : ValueId) : Option Id :=
  if n.scope.settings.optimizeLoadStore then none else n.symbols.slots.get? v

/-- The store that follows the definition of a variable. -/
def stored (n : Names) (v : ValueId) (id : Id) : List Instruction :=
  match n.slot? v with
  | some slot => [⟨.store, none, none, [.ref slot, .ref id]⟩]
  | none => []

structure Sees (n n' : Names) : Prop where
  scope : n'.scope = n.scope
  session : n.session.Sees n'.session
  symbols : n.symbols.Sees n'.symbols

namespace Sees

variable {n n' n'' : Names}

theorem trans (h : n.Sees n') (h' : n'.Sees n'') : n.Sees n'' :=
  ⟨h'.scope.trans h.scope, h.session.trans h'.session, h.symbols.trans h'.symbols⟩

theorem slot? (h : n.Sees n') (v : ValueId) : n'.slot? v = n.slot? v := by
  unfold Names.slot?
  rw [h.scope, h.symbols.slots]

theorem stored (h : n.Sees n') (v : ValueId) (id : Id) : n'.stored v id = n.stored v id := by
  unfold Names.stored
  rw [h.slot?]

end Sees

end Names

/-- Values that are not defined yet and will be, each once. -/
structure NewValues (vs defined : List ValueId) : Prop where
  nodup : vs.Nodup
  apart : ∀ v ∈ vs, v ∉ defined

namespace NewValues

variable {vs ws defined : List ValueId} (h : NewValues (vs ++ ws) defined)

include h

theorem left : NewValues vs defined :=
  ⟨(nodup_append.1 h.nodup).1, fun v hv => h.apart v (mem_append_left _ hv)⟩

/-- The second values are new when the first are defined. -/
theorem right {used : List ValueId} (hused : ∀ v ∈ used, v ∈ vs) :
    NewValues ws (used ++ defined) := by
  obtain ⟨-, hws, hdisjoint⟩ := nodup_append.1 h.nodup
  refine ⟨hws, fun v hv hmem => ?_⟩
  rcases mem_append.1 hmem with hmem | hmem
  · exact hdisjoint v (hused v hmem) v hv rfl
  · exact h.apart v (mem_append_right _ hv) hmem

end NewValues

/-- The names of a function at some moment of its emission. -/
def Body.names (b : Body) (scope : Scope) : Names := ⟨scope, b.session, b.symbols⟩

/-! ## Instructions of lines -/

/-- An operand of a line; `ids` are the ids of the values so far. -/
def argOf (ids : List Id) : Arg → Option Operand
  | .value t => ids[t]?.map .ref
  | .literal n => some (.literal n)
  | .access n => some (.enumerant .memoryAccess n)

/-- The instructions and the id of a line that has a value. -/
inductive ExprCode (n : Names) (ids : List Id) : Expr → List Instruction → Id → Prop
  | slot {v : ValueId} {slot : Id} {k : Kind} {type id : Id} (hslot : n.slot? v = some slot)
      (hk : n.scope.function.kindOf? v = some k) (ht : n.session.types.get? k = some type) :
      ExprCode n ids (.use v) [⟨.load, some type, some id, [.ref slot]⟩] id
  | use {v : ValueId} {id : Id} (hslot : n.slot? v = none) (hv : n.symbols.resolve? v = some id) :
      ExprCode n ids (.use v) [] id
  | constant {text : String} {k : Kind} {id : Id}
      (h : n.session.constants.get? (text, k) = some id) :
      ExprCode n ids (.constant text k) [] id
  | type {k : Kind} {id : Id} (h : n.session.types.get? k = some id) :
      ExprCode n ids (.type k) [] id
  | pointer {k : Kind} {storage : StorageClass} {type id : Id}
      (ht : n.session.types.get? k = some type)
      (h : n.session.pointers.get? (type, storage) = some id) :
      ExprCode n ids (.pointer k storage) [] id
  | array {a : ArrayId} {slot : ArraySlot} (h : n.symbols.arrays.get? a = some slot) :
      ExprCode n ids (.array a) [] slot.storageVar
  | coordinate {query : Lir.ThreadQuery} {id : Id} (h : n.scope.builtins.get? query = some id) :
      ExprCode n ids (.coordinate query) [] id
  | callee {name : String} {signature : Signature}
      (h : n.scope.callees.get? name = some signature) :
      ExprCode n ids (.callee name) [] signature.id
  | instr {op : Opcode} {t : Temp} {args : List Arg} {type id : Id} {operands : List Operand}
      (ht : ids[t]? = some type) (ha : args.mapM (argOf ids) = some operands) :
      ExprCode n ids (.instr op t args) [⟨op, some type, some id, operands⟩] id
  | math {op : MathOp} {t : Temp} {args : List Arg} {type id set : Id} {operands : List Operand}
      (ht : ids[t]? = some type) (ha : args.mapM (argOf ids) = some operands)
      (hset : n.session.mathImport = some set) :
      ExprCode n ids (.math op t args)
        [⟨.extInst, some type, some id, .ref set :: .extInst op.code :: operands⟩] id

/-- The instructions of a line that has no value. -/
inductive EffectCode (n : Names) (ids : List Id) : Effect → List Instruction → Prop
  | perform {op : Opcode} {args : List Arg} {operands : List Operand}
      (ha : args.mapM (argOf ids) = some operands) :
      EffectCode n ids (.perform op args) [⟨op, none, none, operands⟩]
  | define {v : ValueId} {op : Opcode} {t : Temp} {args : List Arg} {type id : Id}
      {operands : List Operand} (ht : ids[t]? = some type)
      (ha : args.mapM (argOf ids) = some operands) (hv : n.symbols.resolve? v = some id) :
      EffectCode n ids (.define v op t args)
        (⟨op, some type, some id, operands⟩ :: n.stored v id)
  | defineMath {v : ValueId} {op : MathOp} {t : Temp} {args : List Arg} {type id set : Id}
      {operands : List Operand} (ht : ids[t]? = some type)
      (ha : args.mapM (argOf ids) = some operands) (hv : n.symbols.resolve? v = some id)
      (hset : n.session.mathImport = some set) :
      EffectCode n ids (.defineMath v op t args)
        (⟨.extInst, some type, some id, .ref set :: .extInst op.code :: operands⟩ :: n.stored v id)
  | copy {v : ValueId} {t : Temp} {k : Kind} {type source id : Id} (hs : ids[t]? = some source)
      (hk : n.scope.function.kindOf? v = some k) (ht : n.session.types.get? k = some type)
      (hv : n.symbols.resolve? v = some id) :
      EffectCode n ids (.forward v t)
        (⟨.copyObject, some type, some id, [.ref source]⟩ :: n.stored v id)
  | shared {v : ValueId} {t : Temp} {id : Id} (hs : ids[t]? = some id)
      (hv : n.symbols.resolve? v = some id) :
      EffectCode n ids (.forward v t) (n.stored v id)

/-- The instructions of lines and the ids of all values. -/
inductive LinesCode (n : Names) : List Id → List Line → List Instruction → List Id → Prop
  | nil {ids : List Id} : LinesCode n ids [] [] ids
  | value {ids ids' : List Id} {e : Expr} {ls : List Line} {c c' : List Instruction} {id : Id}
      (he : ExprCode n ids e c id) (hls : LinesCode n (ids ++ [id]) ls c' ids') :
      LinesCode n ids (.value e :: ls) (c ++ c') ids'
  | effect {ids ids' : List Id} {e : Effect} {ls : List Line} {c c' : List Instruction}
      (he : EffectCode n ids e c) (hls : LinesCode n ids ls c' ids') :
      LinesCode n ids (.effect e :: ls) (c ++ c') ids'

section Later

variable {n n' : Names} {ids ids' : List Id} {c : List Instruction}

theorem ExprCode.later (h : n.Sees n') {e : Expr} {id : Id} (he : ExprCode n ids e c id) :
    ExprCode n' ids e c id := by
  cases he with
  | slot hslot hk ht =>
    exact .slot (by rw [h.slot?, hslot]) (by rw [h.scope, hk]) (h.session.types _ _ ht)
  | use hslot hv => exact .use (by rw [h.slot?, hslot]) (h.symbols.values _ _ hv)
  | constant hc => exact .constant (h.session.constants _ _ hc)
  | type ht => exact .type (h.session.types _ _ ht)
  | pointer ht hp => exact .pointer (h.session.types _ _ ht) (h.session.pointers _ _ hp)
  | array ha => exact .array (by rw [h.symbols.arrays, ha])
  | coordinate hq => exact .coordinate (by rw [h.scope, hq])
  | callee hc => exact .callee (by rw [h.scope, hc])
  | instr ht ha => exact .instr ht ha
  | math ht ha hset => exact .math ht ha (h.session.mathImport _ hset)

theorem EffectCode.later (h : n.Sees n') {e : Effect} (he : EffectCode n ids e c) :
    EffectCode n' ids e c := by
  cases he with
  | perform ha => exact .perform ha
  | define ht ha hv =>
    rw [← h.stored]
    exact .define ht ha (h.symbols.values _ _ hv)
  | defineMath ht ha hv hset =>
    rw [← h.stored]
    exact .defineMath ht ha (h.symbols.values _ _ hv) (h.session.mathImport _ hset)
  | copy hs hk ht hv =>
    rw [← h.stored]
    exact .copy hs (by rw [h.scope, hk]) (h.session.types _ _ ht) (h.symbols.values _ _ hv)
  | shared hs hv =>
    rw [← h.stored]
    exact .shared hs (h.symbols.values _ _ hv)

theorem LinesCode.later (h : n.Sees n') {ls : List Line} (hl : LinesCode n ids ls c ids') :
    LinesCode n' ids ls c ids' := by
  induction hl with
  | nil => exact .nil
  | value he _ ih => exact .value (he.later h) ih
  | effect he _ ih => exact .effect (he.later h) ih

end Later

/-! ## Definitions -/

/-- Variables that lines define. -/
def Line.defs : Line → List ValueId
  | .effect (.define v _ _ _) | .effect (.defineMath v _ _ _) | .effect (.forward v _) => [v]
  | _ => []

/-- The definitions emitted so far are those of the given variables, and no id is reserved
for any of them. -/
structure Symbols.Told (defined : List ValueId) (t : Symbols) : Prop where
  keyed : t.reserved.Keyed
  values : ∀ v, (t.values.get? v).isSome ↔ v ∈ defined
  settled : ∀ v ∈ defined, t.reserved.get? v = none

/-- Names in which a variable no longer waits for its definition. -/
structure Symbols.Frees (v : ValueId) (t t' : Symbols) : Prop where
  slots : t'.slots = t.slots
  arrays : t'.arrays = t.arrays
  labels : t'.labels = t.labels
  values : t'.values = t.values
  freed : t'.reserved.get? v = none
  others : ∀ w ≠ v, t'.reserved.get? w = t.reserved.get? w
  keyed : t'.reserved.Keyed

/-- Names with the definition of one more variable; a definition takes the reserved id. -/
structure Symbols.Defines (v : ValueId) (id : Id) (t t' : Symbols) : Prop where
  slots : t'.slots = t.slots
  arrays : t'.arrays = t.arrays
  labels : t'.labels = t.labels
  values : t'.values = t.values.insert v id
  freed : t'.reserved.get? v = none
  others : ∀ w ≠ v, t'.reserved.get? w = t.reserved.get? w
  keyed : t'.reserved.Keyed
  taken : ∀ r, t.reserved.get? v = some r → r = id

namespace Symbols.Defines

variable {v : ValueId} {id : Id} {t t' : Symbols} {defined : List ValueId}

theorem resolve (h : t.Defines v id t') : t'.resolve? v = some id := by
  rw [Symbols.resolve?, h.freed, h.values, Table.get?_insert_self, Option.none_or]

theorem told (h : t.Defines v id t') (ht : t.Told defined) : t'.Told (v :: defined) where
  keyed := h.keyed
  values w := by
    rw [h.values, Table.get?_insert]
    by_cases hw : v = w
    · simp [hw]
    · rw [if_neg hw, ht.values w, mem_cons]
      exact ⟨.inr, fun hmem => hmem.resolve_left fun heq => hw heq.symm⟩
  settled w hw := by
    by_cases hwv : w = v
    · rw [hwv, h.freed]
    · rw [h.others w hwv]
      exact ht.settled w ((mem_cons.1 hw).resolve_left hwv)

/-- A first definition changes no name. -/
theorem sees (h : t.Defines v id t') (ht : t.Told defined) (hv : v ∉ defined) : t.Sees t' where
  slots := h.slots
  arrays := h.arrays
  labels block id hb := by rw [h.labels, hb]
  values w r hw := by
    by_cases hwv : w = v
    · subst hwv
      have hnone : t.values.get? w = none := by
        cases hget : t.values.get? w with
        | none => rfl
        | some => exact absurd ((ht.values w).1 (by rw [hget]; rfl)) hv
      rw [Symbols.resolve?, hnone, Option.or_none] at hw
      rw [h.resolve, h.taken r hw]
    · rw [Symbols.resolve?, h.others w hwv, h.values, Table.get?_insert, if_neg (Ne.symm hwv)]
      exact hw

end Symbols.Defines

/-! ## Emission -/

/-- A later moment of the emission of a function, with instructions appended to the open
block. -/
structure Body.Emits (c : List Instruction) (b b' : Body) : Prop where
  session : b.session.Adds c b'.session
  symbols : b.symbols.Sees b'.symbols

namespace Body.Emits

variable {b b' b'' : Body} {c c' : List Instruction}

theorem refl (b : Body) : b.Emits [] b := ⟨.refl _, .refl _⟩

theorem trans (h : b.Emits c b') (h' : b'.Emits c' b'') : b.Emits (c ++ c') b'' :=
  ⟨h.session.trans h'.session, h.symbols.trans h'.symbols⟩

theorem names (h : b.Emits c b') (scope : Scope) : (b.names scope).Sees (b'.names scope) :=
  ⟨rfl, h.session.toSees, h.symbols⟩

end Body.Emits

namespace Emit

variable {scope : Scope} {b b' : Body} {ids : List Id}

variable {v : ValueId}

theorem slotOf_ok {r : Option Id} (h : slotOf v scope b = .ok r b') :
    r = (b.names scope).slot? v ∧ b = b' := by
  have hspill : slotOf v scope =
      if (!scope.settings.optimizeLoadStore) = true then
        (do return (← get).symbols.slots.get? v : EStateM Error Body (Option Id))
      else pure none := by
    simp only [slotOf, spilling, bind_apply, read_apply, pure_bind, pure_apply]
    split <;> rfl
  rw [hspill] at h
  unfold Names.slot? Body.names
  cases hs : scope.settings.optimizeLoadStore with
  | true =>
    simp only [hs] at h
    obtain ⟨rfl, rfl⟩ := pure_ok.1 h
    exact ⟨rfl, rfl⟩
  | false =>
    simp only [hs, Bool.not_false, if_true] at h
    obtain ⟨rfl, rfl⟩ := pure_ok.1 h
    exact ⟨rfl, rfl⟩

theorem kindOf_ok {k : Kind} (h : kindOf v scope b = .ok k b') :
    scope.function.kindOf? v = some k ∧ b = b' := by
  simp only [kindOf, bind_apply, read_apply, pure_bind] at h
  cases hk : scope.function.kindOf? v with
  | none =>
    simp only [hk] at h
    exact absurd h throw_ok
  | some =>
    simp only [hk] at h
    obtain ⟨rfl, rfl⟩ := pure_ok.1 h
    exact ⟨rfl, rfl⟩

variable {id : Id}

theorem temp_ok {t : Temp} (h : temp ids t scope b = .ok id b') : ids[t]? = some id ∧ b = b' := by
  unfold temp at h
  cases ht : ids[t]? with
  | none =>
    simp only [ht] at h
    exact absurd h throw_ok
  | some =>
    simp only [ht] at h
    obtain ⟨rfl, rfl⟩ := pure_ok.1 h
    exact ⟨rfl, rfl⟩

theorem arg_ok {a : Arg} {o : Operand} (h : arg ids a scope b = .ok o b') :
    argOf ids a = some o ∧ b = b' := by
  cases a with
  | value =>
    obtain ⟨id, hid, h⟩ := look_ok temp_ok h
    obtain ⟨rfl, rfl⟩ := pure_ok.1 h
    exact ⟨by rw [argOf, hid]; rfl, rfl⟩
  | literal | access =>
    obtain ⟨rfl, rfl⟩ := pure_ok.1 h
    exact ⟨rfl, rfl⟩

theorem args_ok {as : List Arg} {os : List Operand} (h : (as.mapM (arg ids)) scope b = .ok os b') :
    as.mapM (argOf ids) = some os ∧ b = b' := by
  rw [mapM_apply] at h
  induction as generalizing os with
  | nil =>
    obtain ⟨rfl, rfl⟩ := pure_ok.1 h
    exact ⟨rfl, rfl⟩
  | cons a as ih =>
    obtain ⟨o, b₁, rest, ho, hrest, rfl⟩ := mapM_cons_ok h
    obtain ⟨hfirst, rfl⟩ := arg_ok ho
    obtain ⟨hothers, rfl⟩ := ih hrest
    exact ⟨by rw [mapM_cons, hfirst, hothers]; rfl, rfl⟩

theorem resolve_ok {t : Symbols} (h : t.resolve v = .ok id) : t.resolve? v = some id := by
  unfold Symbols.resolve at h
  cases hr : t.resolve? v with
  | none =>
    rw [hr] at h
    cases h
  | some =>
    rw [hr] at h
    cases h
    rfl

theorem use_ok (h : use v scope b = .ok id b') :
    ∃ c, b.session.Adds c b'.session ∧ b'.symbols = b.symbols ∧
      ExprCode (b'.names scope) ids (.use v) c id := by
  obtain ⟨r, rfl, h⟩ := look_ok slotOf_ok h
  cases hs : (b.names scope).slot? v with
  | some =>
    simp only [hs] at h
    obtain ⟨k, hk, h⟩ := look_ok kindOf_ok h
    obtain ⟨type, _, htype, h⟩ := build_bind_ok h
    obtain ⟨_, hstep, rfl⟩ := (build_ok scope).1 h
    obtain ⟨hadds, hget⟩ := Build.typeOf_ok htype
    have hemit := Build.emit_ok hstep
    exact ⟨_, hadds.trans hemit, rfl, .slot hs hk (hemit.types _ _ hget)⟩
  | none =>
    simp only [hs, bind_apply, ofExcept_apply] at h
    obtain ⟨hres, rfl⟩ := ofExcept_ok.1 h
    exact ⟨[], .refl _, rfl, .use hs (resolve_ok hres)⟩

/-- A line that has a value becomes its instructions and changes no name. -/
theorem expr_ok {e : Expr} (h : expr ids e scope b = .ok id b') :
    ∃ c, b.session.Adds c b'.session ∧ b'.symbols = b.symbols ∧
      ExprCode (b'.names scope) ids e c id := by
  cases e with
  | use => exact use_ok h
  | constant =>
    obtain ⟨_, hstep, rfl⟩ := (build_ok scope).1 h
    obtain ⟨hadds, hget⟩ := Build.constant_ok hstep
    exact ⟨[], hadds, rfl, .constant hget⟩
  | type =>
    obtain ⟨_, hstep, rfl⟩ := (build_ok scope).1 h
    obtain ⟨hadds, hget⟩ := Build.typeOf_ok hstep
    exact ⟨[], hadds, rfl, .type hget⟩
  | pointer =>
    obtain ⟨_, hstep, rfl⟩ := (build_ok scope).1 h
    obtain ⟨hadds, type, htype, hget⟩ := Build.pointerTo_ok hstep
    exact ⟨[], hadds, rfl, .pointer htype hget⟩
  | array a =>
    simp only [expr, bind_apply] at h
    replace h := get_bind_ok.1 h
    cases ha : b.symbols.arrays.get? a with
    | none =>
      simp only [ha] at h
      exact absurd h throw_ok
    | some =>
      simp only [ha] at h
      obtain ⟨rfl, rfl⟩ := pure_ok.1 h
      exact ⟨[], .refl _, rfl, .array ha⟩
  | coordinate query =>
    simp only [expr, bind_apply, read_apply, pure_bind] at h
    cases hq : scope.builtins.get? query with
    | none =>
      simp only [hq] at h
      exact absurd h throw_ok
    | some =>
      simp only [hq] at h
      obtain ⟨rfl, rfl⟩ := pure_ok.1 h
      exact ⟨[], .refl _, rfl, .coordinate hq⟩
  | callee name =>
    simp only [expr, bind_apply, read_apply, pure_bind] at h
    cases hc : scope.callees.get? name with
    | none =>
      simp only [hc] at h
      exact absurd h throw_ok
    | some =>
      simp only [hc] at h
      obtain ⟨rfl, rfl⟩ := pure_ok.1 h
      exact ⟨[], .refl _, rfl, .callee hc⟩
  | instr =>
    obtain ⟨type, ht, h⟩ := look_ok temp_ok h
    obtain ⟨operands, ha, h⟩ := look_ok args_ok h
    obtain ⟨_, hstep, rfl⟩ := (build_ok scope).1 h
    exact ⟨_, Build.emit_ok hstep, rfl, .instr ht ha⟩
  | math =>
    obtain ⟨type, ht, h⟩ := look_ok temp_ok h
    obtain ⟨operands, ha, h⟩ := look_ok args_ok h
    obtain ⟨_, hstep, rfl⟩ := (build_ok scope).1 h
    obtain ⟨set, hset, _, hadds⟩ := Build.emitMath_ok hstep
    exact ⟨_, hadds, rfl, .math ht ha hset⟩

/-- The id of a definition is the reserved one if there is one. -/
theorem resultFor_ok (hk : b.symbols.reserved.Keyed) (h : resultFor v scope b = .ok id b') :
    b.session.Adds [] b'.session ∧ b.symbols.Frees v b'.symbols ∧
      ∀ r, b.symbols.reserved.get? v = some r → r = id := by
  have h : b.resultId v = (id, b') := modifyGet_ok.1 h
  unfold Body.resultId at h
  cases hr : b.symbols.reserved.get? v with
  | some =>
    simp only [hr] at h
    obtain ⟨rfl, rfl⟩ := h
    refine ⟨.refl _, ⟨rfl, rfl, rfl, rfl, ?_, ?_, hk.erase v⟩, by simp⟩
    · exact Table.get?_erase_self hk v
    · exact fun w hw => Table.get?_erase_of_ne _ (.symm hw)
  | none =>
    simp only [hr] at h
    obtain ⟨rfl, rfl⟩ : b.fresh.1 = id ∧ b.fresh.2 = b' := Prod.mk.inj h
    refine ⟨?_, ⟨rfl, rfl, rfl, rfl, hr, fun _ _ => rfl, hk⟩, by simp⟩
    have hfresh : Build.fresh b.session = .ok b.fresh.1 b.fresh.2.session := rfl
    exact (Build.fresh_quiet hfresh).adds

/-- Recording a definition, with the store that follows it in spill mode. -/
theorem define_ok {u : Unit} (h : define v id scope b = .ok u b') :
    b.session.Adds ((b'.names scope).stored v id) b'.session ∧
      b'.symbols = b.symbols.define v id := by
  simp only [define] at h
  obtain ⟨r, rfl, h⟩ := look_ok slotOf_ok h
  cases hs : Names.slot? (Body.names { b with symbols := b.symbols.define v id } scope) v with
  | some slot =>
    simp only [hs] at h
    obtain ⟨session, hstep, rfl⟩ := (build_ok scope).1 h
    have hslot : Names.slot? (Body.names ⟨session, b.symbols.define v id⟩ scope) v = some slot := hs
    refine ⟨?_, rfl⟩
    rw [Names.stored, hslot]
    exact (Build.append_ok hstep).adds
  | none =>
    simp only [hs] at h
    obtain ⟨_, rfl⟩ := pure_ok.1 h
    rw [Names.stored, hs]
    exact ⟨Session.Adds.refl _, rfl⟩

/-- A definition after its id was taken. -/
theorem frees_define {t t' : Symbols} (hf : t.Frees v t')
    (ht : ∀ r, t.reserved.get? v = some r → r = id) : t.Defines v id (t'.define v id) :=
  { hf with values := by rw [Symbols.define, hf.values], taken := ht }

theorem defineAs_ok {op : Opcode} {type : Id} {operands : List Operand} {u : Unit}
    (hk : b.symbols.reserved.Keyed) (h : defineAs v op type operands scope b = .ok u b') :
    ∃ id, b.symbols.Defines v id b'.symbols ∧ b.session.Adds
      (⟨op, some type, some id, operands⟩ :: (b'.names scope).stored v id) b'.session := by
  simp only [defineAs, bind_apply] at h
  obtain ⟨id, b₁, hresult, h⟩ := bind_ok.1 h
  obtain ⟨_, _, hstep, h⟩ := build_bind_ok h
  obtain ⟨hadds, hfrees, htaken⟩ := resultFor_ok hk hresult
  obtain ⟨hadds', hsym⟩ := define_ok h
  refine ⟨id, ?_, (hadds.trans (Build.append_ok hstep).adds).trans hadds'⟩
  rw [hsym]
  exact frees_define hfrees htaken

variable {defined : List ValueId} {u : Unit}

/-- A definition as a value copies it if a merge waits for its id and is an alias otherwise. -/
theorem forward_ok {t : Temp} {source : Id} (hs : ids[t]? = some source)
    (ht : b.symbols.Told defined) (hv : v ∉ defined) (h : forward v source scope b = .ok u b') :
    ∃ c, b.Emits c b' ∧ b'.symbols.Told (v :: defined) ∧
      EffectCode (b'.names scope) ids (.forward v t) c := by
  simp only [forward, bind_apply] at h
  replace h := get_bind_ok.1 h
  cases hr : b.symbols.isReserved v with
  | true =>
    simp only [hr] at h
    obtain ⟨k, hk, h⟩ := look_ok kindOf_ok h
    obtain ⟨type, s, htype, h⟩ := build_bind_ok h
    obtain ⟨hadds, hget⟩ := Build.typeOf_ok htype
    obtain ⟨id, hdefines, hadds'⟩ := defineAs_ok (b := ⟨s, b.symbols⟩) ht.keyed h
    exact ⟨_, ⟨hadds.trans hadds', hdefines.sees ht hv⟩, hdefines.told ht,
      .copy hs hk (hadds'.types _ _ hget) hdefines.resolve⟩
  | false =>
    simp only [hr, Bool.false_eq_true, if_false] at h
    obtain ⟨hadds, hsym⟩ := define_ok h
    have hnone : b.symbols.reserved.get? v = none := by
      simpa [Symbols.isReserved, Table.contains] using hr
    have hdefines : b.symbols.Defines v source b'.symbols := by
      rw [hsym]
      exact ⟨rfl, rfl, rfl, rfl, hnone, fun _ _ => rfl, ht.keyed, fun r hr => by simp [hnone] at hr⟩
    exact ⟨_, ⟨hadds, hdefines.sees ht hv⟩, hdefines.told ht, .shared hs hdefines.resolve⟩

/-- A line that has no value becomes its instructions. -/
theorem effect_ok {e : Effect} (ht : b.symbols.Told defined)
    (hnew : ∀ v ∈ Line.defs (.effect e), v ∉ defined) (h : effect ids e scope b = .ok u b') :
    ∃ c, b.Emits c b' ∧ b'.symbols.Told (Line.defs (.effect e) ++ defined) ∧
      EffectCode (b'.names scope) ids e c := by
  cases e with
  | perform =>
    obtain ⟨operands, ha, h⟩ := look_ok args_ok h
    obtain ⟨_, hstep, rfl⟩ := (build_ok scope).1 h
    exact ⟨_, ⟨(Build.append_ok hstep).adds, Symbols.Sees.refl _⟩, ht, .perform ha⟩
  | define v =>
    obtain ⟨type, hty, h⟩ := look_ok temp_ok h
    obtain ⟨operands, ha, h⟩ := look_ok args_ok h
    obtain ⟨id, hdefines, hadds⟩ := defineAs_ok ht.keyed h
    exact ⟨_, ⟨hadds, hdefines.sees ht (hnew v (by simp [Line.defs]))⟩, hdefines.told ht,
      .define hty ha hdefines.resolve⟩
  | defineMath v =>
    simp only [effect, bind_apply] at h
    obtain ⟨type, hty, h⟩ := look_ok temp_ok h
    obtain ⟨operands, ha, h⟩ := look_ok args_ok h
    obtain ⟨id, b₁, hresult, h⟩ := bind_ok.1 h
    obtain ⟨_, _, hstep, h⟩ := build_bind_ok h
    obtain ⟨hadds, hfrees, htaken⟩ := resultFor_ok ht.keyed hresult
    obtain ⟨set, hset, hgiven, hadds'⟩ := Build.emitMath_ok hstep
    cases hgiven id rfl
    obtain ⟨hadds'', hsym⟩ := define_ok h
    have hdefines : b.symbols.Defines v id b'.symbols := by
      rw [hsym]
      exact frees_define hfrees htaken
    exact ⟨_, ⟨(hadds.trans hadds').trans hadds'', hdefines.sees ht (hnew v (by simp [Line.defs]))⟩,
      hdefines.told ht, .defineMath hty ha hdefines.resolve (hadds''.mathImport _ hset)⟩
  | forward v =>
    obtain ⟨source, hs, h⟩ := look_ok temp_ok h
    exact forward_ok hs ht (hnew v (by simp [Line.defs])) h

/-- Lines become their instructions, one after another, and define their variables. -/
theorem lines_ok {ls : List Line} {ids' : List Id} (ht : b.symbols.Told defined)
    (hnew : NewValues (ls.flatMap Line.defs) defined) (h : lines ids ls scope b = .ok ids' b') :
    ∃ c, b.Emits c b' ∧ b'.symbols.Told ((ls.flatMap Line.defs).reverse ++ defined) ∧
      LinesCode (b'.names scope) ids ls c ids' := by
  induction ls generalizing ids b defined with
  | nil =>
    obtain ⟨rfl, rfl⟩ := pure_ok.1 h
    exact ⟨[], .refl b, ht, .nil⟩
  | cons l ls ih =>
    cases l with
    | value =>
      obtain ⟨id, b₁, he, h⟩ := bind_ok.1 h
      obtain ⟨c, hadds, hsym, hcode⟩ := expr_ok he
      rw [← hsym] at ht
      obtain ⟨c', hemits, htold, hlines⟩ := ih ht hnew h
      have hfirst : b.Emits c b₁ := ⟨hadds, hsym ▸ Symbols.Sees.refl _⟩
      exact ⟨c ++ c', hfirst.trans hemits, htold, .value (hcode.later (hemits.names scope)) hlines⟩
    | effect e =>
      obtain ⟨_, b₁, he, h⟩ := bind_ok.1 h
      rw [flatMap_cons] at hnew ⊢
      obtain ⟨c, hfirst, htold, hcode⟩ := effect_ok ht hnew.left.apart he
      obtain ⟨c', hemits, htold', hlines⟩ := ih htold (hnew.right fun _ => id) h
      refine ⟨c ++ c', hfirst.trans hemits, ?_, .effect (hcode.later (hemits.names scope)) hlines⟩
      have hreverse : (Line.defs (.effect e)).reverse = Line.defs (.effect e) := by
        cases e <;> rfl
      rw [reverse_append, hreverse, append_assoc]
      exact htold'

end Emit

end KernelForge.Codegen
