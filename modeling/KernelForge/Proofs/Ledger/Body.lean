import KernelForge.Proofs.Ledger.Session

/-!
# Function bodies keep the ledger

While a function is under assembly two kinds of ids are owed: ids that merges reserved for later
definitions, and labels of blocks that were mentioned and not opened yet. `Body.Tidy` adds these
debts to the ledger of the session. A definition takes its id out of the reservations, holds it
until its instruction is appended, and so settles exactly one debt.
-/

namespace KernelForge

open List hiding get modify

namespace Table

variable {κ α : Type} [DecidableEq κ]

/-- Values under keys that are not in a list. -/
def except (t : Table κ α) (ks : List κ) : List α :=
  (t.entries.filter fun e => e.1 ∉ ks).map Prod.snd

variable {ks : List κ} {t : Table κ α} {k : κ} {a : α}

theorem except_insert_of_none
    (h : t.get? k = none) (hk : k ∉ ks) : (t.insert k a).except ks = t.except ks ++ [a] := by
  simp [except, entries_insert_of_none h, hk]

/-- Leaving out one more key takes its value out. -/
theorem except_perm (ht : t.Keyed)
    (h : t.get? k = some a) (hk : k ∉ ks) : (t.except ks).Perm (a :: t.except (k :: ks)) :=
  (filter_perm ht (mem_entries_of_get? h) hk).map Prod.snd

theorem except_eq_nil (h : ∀ e ∈ t.entries, e.1 ∈ ks) : t.except ks = [] := by
  simp only [except, map_eq_nil_iff, filter_eq_nil_iff, decide_eq_true_eq, Decidable.not_not]
  exact h

end Table

namespace Codegen

open Lir (Kind ValueId BlockId Terminator)
open Spirv

/-- Ids that surround a function under assembly. -/
def Scope.ids (scope : Scope) : List Id :=
  scope.builtins.values ++ scope.callees.values.map Signature.id ++ scope.returnBlock.toList

variable {scope : Scope}

theorem Scope.callee_mem {callee : String} {signature : Signature}
    (h : scope.callees.get? callee = some signature) : signature.id ∈ scope.ids := by
  simp only [Scope.ids, mem_append, mem_map, Table.values]
  exact .inl (.inr ⟨signature, ⟨_, Table.mem_entries_of_get? h, rfl⟩, rfl⟩)

variable {id : Id}

theorem Scope.builtin_mem {query : Lir.ThreadQuery}
    (h : scope.builtins.get? query = some id) : id ∈ scope.ids := by
  simp only [Scope.ids, mem_append, mem_map, Table.values]
  exact .inl (.inl ⟨_, Table.mem_entries_of_get? h, rfl⟩)

theorem Scope.returnBlock_mem (h : scope.returnBlock = some id) : id ∈ scope.ids := by
  simp [Scope.ids, h]

def Owns (f : Lir.Function) (block : BlockId) : Prop := block ∈ f.blocks.map Lir.Block.id

theorem owns_entry {f : Lir.Function} {entry : BlockId} (h : f.entry? = some entry) :
    Owns f entry := by
  obtain ⟨first, hfirst, rfl⟩ := Option.map_eq_some_iff.1 h
  exact mem_map_of_mem (mem_of_head? hfirst)

/-- Blocks a terminator names: its successors and those of its loop hint. -/
def Emit.targets : Terminator → List BlockId
  | .branch _ onTrue onFalse (some hint) =>
    [onTrue, onFalse, hint.merge, hint.continueTarget]
  | t => t.successors

/-- Every block that a terminator of the function names is a block of the function. -/
def Targeted (f : Lir.Function) : Prop :=
  ∀ b ∈ f.blocks, ∀ block ∈ Emit.targets b.terminator, Owns f block

instance (f : Lir.Function) (block : BlockId) : Decidable (Owns f block) :=
  inferInstanceAs (Decidable (block ∈ f.blocks.map Lir.Block.id))

instance (f : Lir.Function) : Decidable (Targeted f) :=
  inferInstanceAs (Decidable (∀ b ∈ f.blocks, ∀ block ∈ Emit.targets b.terminator, Owns f block))

/-- Whether a block belongs to a function, unless the function names blocks it does not have. -/
def Named (f : Lir.Function) (block : BlockId) : Prop := Targeted f → Owns f block

def Body.Knows (b : Body) (id : Id) : Prop := b.session.Knows id

/-- Ids that the names of a function owe: those reserved for later definitions and the labels of
blocks that were mentioned and not opened. -/
def Symbols.debts (opened : List BlockId) (t : Symbols) : List Id :=
  t.reserved.values ++ t.labels.except opened

/-- Names with the label of one more block. -/
def Symbols.nameBlock (t : Symbols) (block : BlockId) (id : Id) : Symbols :=
  { t with labels := t.labels.insert block id }

variable {block : BlockId}

theorem Body.label_of_some {b : Body}
    (h : b.symbols.labels.get? block = some id) : b.label block = (id, b) := by
  simp only [Body.label, h]

theorem Body.label_of_none {b : Body} (h : b.symbols.labels.get? block = none) :
    b.label block =
      (b.fresh.1, { b.fresh.2 with symbols := b.symbols.nameBlock block b.fresh.1 }) := by
  simp only [Body.label, h]
  rfl

/-- A block has the label that was given to it. -/
theorem Body.label_get (b : Body) (block : BlockId) :
    (b.label block).2.symbols.labels.get? block = some (b.label block).1 := by
  cases h : b.symbols.labels.get? block with
  | some => rw [label_of_some h, h]
  | none =>
    rw [label_of_none h]
    simp [Symbols.nameBlock, Table.get?_insert]

variable [Opening]

/-- The session accounts for its ids, where the names of the function owe some of them,
and every name stands for a known id. Labels belong to blocks that the function names. -/
structure Body.Tidy (scope : Scope) (opened : List BlockId) (held : List Id) (b : Body) : Prop where
  session : b.session.Tidy (held ++ b.symbols.debts opened)
  surroundings : ∀ id ∈ scope.ids, b.Knows id
  values : ∀ v id, b.symbols.values.get? v = some id → b.Knows id
  slots : ∀ v id, b.symbols.slots.get? v = some id → b.Knows id
  arrays : ∀ a slot, b.symbols.arrays.get? a = some slot → b.Knows slot.storageVar
  labels : ∀ e ∈ b.symbols.labels.entries, Named scope.function e.1 ∧ b.Knows e.2
  keyed : b.symbols.labels.Keyed
  opened : ∀ block ∈ opened, (b.symbols.labels.get? block).isSome

namespace Body.Tidy

variable {scope : Scope} {opened : List BlockId} {held : List Id} {b : Body}

variable {held' : List Id}

/-- A step of the session that forgets no id leaves the names alone. -/
theorem withSession {session : Session} (h : b.Tidy scope opened held)
    (hs : session.Tidy (held' ++ b.symbols.debts opened))
    (hk : ∀ id, b.session.Knows id → session.Knows id) :
    Body.Tidy scope opened held' { b with session } where
  session := hs
  surroundings id hid := hk id (h.surroundings id hid)
  values v id hv := hk id (h.values v id hv)
  slots v id hv := hk id (h.slots v id hv)
  arrays a slot ha := hk _ (h.arrays a slot ha)
  labels e he := ⟨(h.labels e he).1, hk _ (h.labels e he).2⟩
  keyed := h.keyed
  opened := h.opened

/-- The order in which ids are held does not matter. -/
theorem perm (h : b.Tidy scope opened held) (hp : held.Perm held') : b.Tidy scope opened held' :=
  { h with session := h.session.perm (hp.append_right _) }

/-- A new id is held by whoever asked for it. -/
theorem fresh (h : b.Tidy scope opened held) :
    Body.Tidy scope opened (b.fresh.1 :: held) b.fresh.2 :=
  h.withSession h.session.fresh fun _ hid => hid.fresh

theorem fresh_knows (h : b.Tidy scope opened held) : b.fresh.2.Knows b.fresh.1 :=
  h.session.fresh.owed_known mem_cons_self

variable {id : Id}

section

variable (h : b.Tidy scope opened held)

include h

variable {v : ValueId}

theorem reserved_known (hid : b.symbols.reserved.get? v = some id) : b.Knows id := by
  refine h.session.owed_known ?_
  have hmem : id ∈ b.symbols.reserved.values :=
    (Table.values_erase_perm hid).mem_iff.1 mem_cons_self
  exact mem_append_right _ (mem_append_left _ hmem)

theorem resolve_known (hid : b.symbols.resolve? v = some id) : b.Knows id := by
  unfold Symbols.resolve? at hid
  cases hr : b.symbols.reserved.get? v with
  | some =>
    rw [hr, Option.some_or, Option.some.injEq] at hid
    exact hid ▸ h.reserved_known hr
  | none =>
    rw [hr] at hid
    exact h.values v id hid

theorem define (v : ValueId) (hid : b.Knows id) :
    Body.Tidy scope opened held { b with symbols := b.symbols.define v id } :=
  { h with values := Table.forall_insert h.values hid }

/-- The id of a definition leaves the reservations and is held. -/
theorem resultId (v : ValueId) :
    Body.Tidy scope opened ((b.resultId v).1 :: held) (b.resultId v).2 ∧
      (∀ id, b.Knows id → (b.resultId v).2.Knows id) ∧
      (b.resultId v).2.Knows (b.resultId v).1 := by
  unfold Body.resultId
  cases hr : b.symbols.reserved.get? v with
  | none => exact ⟨h.fresh, fun _ hid => .fresh hid, h.fresh_knows⟩
  | some id =>
    refine ⟨{ h with session := h.session.perm ?_ }, fun _ hid => hid, h.reserved_known hr⟩
    have hp := (Table.values_erase_perm hr).symm
    show (held ++ (b.symbols.reserved.values ++ _)).Perm
      (id :: held ++ ((b.symbols.reserved.erase v).values ++ _))
    rw [← append_assoc, ← append_assoc]
    refine .append_right _ ?_
    exact (hp.append_left held).trans perm_middle

/-- An id for a later definition is owed by the reservations. -/
theorem reserve (v : ValueId) :
    Body.Tidy scope opened held (b.reserve v).2 ∧
      (∀ id, b.Knows id → (b.reserve v).2.Knows id) ∧
      (b.reserve v).2.Knows (b.reserve v).1 := by
  unfold Body.reserve
  cases hr : b.symbols.reserved.get? v with
  | some => exact ⟨h, fun _ hid => hid, h.reserved_known hr⟩
  | none =>
    refine ⟨{ h.fresh with session := h.fresh.session.perm ?_ },
      fun _ hid => .fresh hid, h.fresh_knows⟩
    show (b.fresh.1 :: held ++ (b.symbols.reserved.values ++ _)).Perm
      (held ++ ((b.symbols.reserved.insert v b.fresh.1).values ++ _))
    rw [Table.values, Table.values, Table.entries_insert_of_none hr, map_append, append_assoc]
    refine (perm_middle.symm).trans (.append_left _ ?_)
    exact perm_middle.symm

end

variable {block : BlockId}

/-- The label of a block that was not mentioned before is owed: an opened block has a label. -/
theorem debts_label (h : b.Tidy scope opened held) (hl : b.symbols.labels.get? block = none) :
    (b.symbols.nameBlock block id).debts opened = b.symbols.debts opened ++ [id] := by
  have hnew : block ∉ opened := fun hin => by
    have hsome := h.opened block hin
    rw [hl] at hsome
    cases hsome
  simp [Symbols.debts, Symbols.nameBlock, Table.except_insert_of_none hl hnew]

/-- A block of the function gets its label at its first mention. -/
theorem label (h : b.Tidy scope opened held) (hb : Named scope.function block) :
    Body.Tidy scope opened held (b.label block).2 ∧
      (∀ id, b.Knows id → (b.label block).2.Knows id) ∧
      (b.label block).2.Knows (b.label block).1 := by
  cases hl : b.symbols.labels.get? block with
  | some =>
    rw [Body.label_of_some hl]
    exact ⟨h, fun _ hid => hid, (h.labels _ (Table.mem_entries_of_get? hl)).2⟩
  | none =>
    rw [Body.label_of_none hl]
    have hf := h.fresh
    refine ⟨{ hf with
      session := hf.session.perm ?_
      labels := ?_
      keyed := h.keyed.insert_of_none hl
      opened := ?_ }, fun _ hid => .fresh hid, h.fresh_knows⟩
    · rw [h.debts_label hl, ← append_assoc]
      exact (perm_append_singleton _ _).symm
    · intro e he
      rw [Symbols.nameBlock, Table.entries_insert_of_none hl, mem_append, mem_singleton] at he
      rcases he with he | rfl
      · exact hf.labels e he
      · exact ⟨hb, h.fresh_knows⟩
    · intro block' hin
      rw [Symbols.nameBlock, Table.get?_insert]
      split
      · rfl
      · exact h.opened block' hin

/-- Whoever opens a block takes its label in hand. -/
theorem takeLabel (h : b.Tidy scope opened held) (hl : b.symbols.labels.get? block = some id)
    (hnew : block ∉ opened) : b.Tidy scope (block :: opened) (id :: held) := by
  refine { h with session := h.session.perm ?_, opened := ?_ }
  · have hp := Table.except_perm h.keyed hl hnew
    have hdebts : (b.symbols.debts opened).Perm (id :: b.symbols.debts (block :: opened)) :=
      (hp.append_left _).trans perm_middle
    exact (hdebts.append_left held).trans perm_middle
  · intro block' hin
    rcases mem_cons.1 hin with rfl | hin
    · rw [hl]
      rfl
    · exact h.opened block' hin

end Body.Tidy

open Body (Tidy Knows)

/-! ## Steps of a body -/

namespace Emit

/-- A step that keeps the ledger of a body, whatever is held and whichever blocks are open. -/
def Safe {α : Type} (scope : Scope) (x : Emit α) (needs : List Id) (gives : α → List Id) : Prop :=
  ∀ opened held, Keeps (Tidy scope opened held) Knows (x scope) needs gives

variable {scope : Scope} {α β : Type} {needs : List Id}

namespace Safe

variable {x : Emit α} {f : α → Emit β}

theorem bind {mid : α → List Id} {gives : β → List Id} (hx : Safe scope x needs mid)
    (hf : ∀ a, Safe scope (f a) (mid a ++ needs) gives) : Safe scope (x >>= f) needs gives :=
  fun opened held => (hx opened held).bind fun a => hf a opened held

variable {gives : α → List Id}

theorem pure {a : α} (h : gives a ⊆ needs) : Safe scope (Pure.pure a) needs gives :=
  fun _ _ => .pure h

theorem fail {e : Error} : Safe scope (fail e : Emit α) needs gives := fun _ _ => .throw

theorem read {g : Scope → Emit β} {gives : β → List Id} (h : Safe scope (g scope) needs gives) :
    Safe scope (read >>= g) needs gives :=
  h

variable {l : List β}

theorem forM {g : β → Emit PUnit}
    (h : ∀ b ∈ l, Safe scope (g b) needs fun _ => []) :
      Safe scope (l.forM g) needs fun _ => [] := by
  intro opened held
  rw [forM_apply]
  exact .forM fun b hb => h b hb opened held

theorem mapM {g : β → Emit α} (h : ∀ b ∈ l, Safe scope (g b) needs gives) :
    Safe scope (l.mapM g) needs fun as => as.flatMap gives := by
  intro opened held
  rw [mapM_apply]
  exact .mapM fun b hb => h b hb opened held

/-- Looking at a body: what its names stand for is known. -/
theorem get (ids : Body → List Id) {g : Body → Emit α}
    (hids : ∀ b opened held, Tidy scope opened held b → ∀ id ∈ ids b, b.Knows id)
    (hg : ∀ b, Safe scope (g b) (ids b ++ needs) gives) : Safe scope (get >>= g) needs gives := by
  intro opened held b a b' hb hn h
  rw [bind_apply] at h
  exact hg b opened held hb (forall_mem_append.2 ⟨hids b opened held hb, hn⟩) h

/-- The ids that surround a function are known inside it. -/
theorem surroundings (h : Safe scope x (scope.ids ++ needs) gives) : Safe scope x needs gives := by
  intro opened held b a b' hb hn
  exact h opened held hb (forall_mem_append.2 ⟨hb.surroundings, hn⟩)

end Safe

variable {gives : α → List Id} {step : Build α}

/-- A step of the session, which may settle some of the held ids. -/
theorem build_takes (settled : List Id)
    (h : ∀ owed, Takes (Session.Tidy (settled ++ owed)) Session.Knows step needs
      (fun _ => Session.Tidy owed) gives) (opened : List BlockId) (held : List Id) :
    Takes (Tidy scope opened (settled ++ held)) Knows (build step scope) needs
      (fun _ => Tidy scope opened held) gives := by
  intro b a b' hb hn hrun
  obtain ⟨session, hstep, rfl⟩ := (build_ok scope).1 hrun
  have hs := append_assoc _ _ _ ▸ hb.session
  obtain ⟨hs', hmono, hgives⟩ := h _ hs hn hstep
  exact ⟨hb.withSession hs' hmono, hmono, hgives⟩

theorem build_safe (h : Build.Safe step needs gives) : Safe scope (build step) needs gives :=
  fun opened held => build_takes [] h opened held

theorem peek {g : Body → Emit α} (hg : ∀ b, Safe scope (g b) needs gives) :
    Safe scope (get >>= g) needs gives :=
  .get (fun _ => []) (fun _ _ _ _ id hid => by cases hid) hg

/-! ## Names -/

theorem label_safe {block : BlockId} (hb : Named scope.function block) :
    Safe scope (label block) needs fun id => [id] := by
  intro opened held b id b' h _ hrun
  have heq : b.label block = (id, b') := modifyGet_ok.1 hrun
  obtain ⟨htidy, hmono, hid⟩ := heq ▸ h.label hb
  exact ⟨htidy, hmono, by simpa using hid⟩

theorem resultFor_takes (v : ValueId) (opened : List BlockId) (held : List Id) :
    Takes (Tidy scope opened held) Knows (resultFor v scope) needs
      (fun id => Tidy scope opened (id :: held)) fun id => [id] := by
  intro b id b' h _ hrun
  have heq : b.resultId v = (id, b') := modifyGet_ok.1 hrun
  obtain ⟨htidy, hmono, hid⟩ := heq ▸ h.resultId v
  exact ⟨htidy, hmono, by simpa using hid⟩

theorem reserve_safe (v : ValueId) :
    Safe scope (modifyGet fun b => b.reserve v) needs fun id => [id] := by
  intro opened held b id b' h _ hrun
  have heq : b.reserve v = (id, b') := modifyGet_ok.1 hrun
  obtain ⟨htidy, hmono, hid⟩ := heq ▸ h.reserve v
  exact ⟨htidy, hmono, by simpa using hid⟩

theorem spilling_safe : Safe scope spilling needs fun _ => [] := .pure (nil_subset _)

theorem kindOf_safe (v : ValueId) : Safe scope (kindOf v) needs fun _ => [] := by
  refine .read ?_
  cases scope.function.kindOf? v with
  | some => exact .pure (nil_subset _)
  | none => exact .fail

theorem typeOf_safe (k : Kind) : Safe scope (typeOf k) needs fun id => [id] :=
  build_safe (Build.typeOf_safe k)

theorem constant_safe (value : String) (k : Kind) :
    Safe scope (constant value k) needs fun id => [id] :=
  build_safe (Build.constant_safe value k)

variable {type id : Id} {operands : List Operand}

theorem emit_safe (op : Opcode) (h : type :: refs operands ⊆ needs) :
    Safe scope (build (Build.emit op type operands)) needs fun id => [id] :=
  build_safe (Build.emit_safe op h)

theorem emitVoid_safe (op : Opcode) (h : refs operands ⊆ needs) :
    Safe scope (build (Build.emitVoid op operands)) needs fun _ => [] :=
  build_safe (Build.emitVoid_safe op h)

theorem slotOf_safe (v : ValueId) : Safe scope (slotOf v) needs Option.toList := by
  refine spilling_safe.bind fun spill => ?_
  split
  · refine .get (fun b => (b.symbols.slots.get? v).toList) ?_ fun b =>
      .pure (by simp)
    intro b opened held h id hid
    exact h.slots v id (Option.mem_toList.1 hid)
  · exact .pure (nil_subset _)

theorem resolve_safe (v : ValueId) :
    Safe scope (do ofExcept ((← get).symbols.resolve v)) needs fun id => [id] := by
  refine .get (fun b => (b.symbols.resolve? v).toList) ?_ fun b => ?_
  · intro b opened held h id hid
    exact h.resolve_known (Option.mem_toList.1 hid)
  · unfold Symbols.resolve
    cases b.symbols.resolve? v with
    | some => exact .pure (by simp)
    | none => exact .fail

theorem use_safe (v : ValueId) : Safe scope (use v) needs fun id => [id] := by
  refine (slotOf_safe v).bind fun slot => ?_
  cases slot with
  | some =>
    refine (kindOf_safe v).bind fun k => (typeOf_safe k).bind fun type => ?_
    exact emit_safe _ (by simp)
  | none => exact resolve_safe v

/-! ## Definitions -/

theorem define_safe (v : ValueId) (h : id ∈ needs) :
    Safe scope (define v id) needs fun _ => [] := by
  have hpoint : Safe scope (modify fun b => { b with symbols := b.symbols.define v id }) needs
      fun _ => [] := by
    intro opened held b u b' hb hn hrun
    cases modify_ok.1 hrun
    exact ⟨hb.define v (hn id h), fun _ hid => hid, fun _ hid => by cases hid⟩
  refine hpoint.bind fun _ => (slotOf_safe v).bind fun slot => ?_
  cases slot with
  | some => exact emitVoid_safe _ (by simp [h])
  | none => exact .pure (nil_subset _)

theorem emitAs_takes (op : Opcode) (h : type :: refs operands ⊆ needs) (opened : List BlockId)
    (held : List Id) :
    Takes (Tidy scope opened (id :: held)) Knows
      (build (Build.emitAs op type id operands) scope) needs
      (fun _ => Tidy scope opened held) fun _ => [] :=
  build_takes [id] (fun owed => Build.emitAs_takes op owed h) opened held

theorem defineAs_safe (v : ValueId) (op : Opcode) (h : type :: refs operands ⊆ needs) :
    Safe scope (defineAs v op type operands) needs fun _ => [] := by
  intro opened held
  simp only [defineAs, bind_apply]
  refine (resultFor_takes v opened held).bind fun result => ?_
  have hrefs : type :: refs operands ⊆ [result] ++ needs :=
    List.Subset.trans h (subset_append_right _ _)
  refine (emitAs_takes op hrefs opened held).bind fun _ => ?_
  exact define_safe v (by simp) opened held

theorem forward_safe (v : ValueId) (h : id ∈ needs) :
    Safe scope (forward v id) needs fun _ => [] := by
  refine peek fun b => ?_
  split
  · refine (kindOf_safe v).bind fun k => (typeOf_safe k).bind fun type => ?_
    exact defineAs_safe v _ (by simp [h])
  · exact define_safe v h

/-! ## Recipes -/

variable {ids : List Id}

theorem temp_safe (t : Temp) (h : ids ⊆ needs) : Safe scope (temp ids t) needs fun id => [id] := by
  unfold temp
  cases ht : ids[t]? with
  | some => exact .pure (by simpa using h (mem_of_getElem? ht))
  | none => exact .fail

theorem arg_safe (a : Arg) (h : ids ⊆ needs) :
    Safe scope (arg ids a) needs fun operand => refs [operand] := by
  cases a with
  | value t => exact (temp_safe t h).bind fun id => .pure (by simp)
  | literal | access => exact .pure (by simp)

theorem args_safe (as : List Arg) (h : ids ⊆ needs) :
    Safe scope (as.mapM (arg ids)) needs refs := by
  have hall : Safe scope (as.mapM (arg ids)) needs fun os => os.flatMap fun o => refs [o] :=
    .mapM fun a _ => arg_safe a h
  simpa only [refs_flatMap] using hall

/-- The type and the arguments of a line. -/
theorem typed_safe {type : Temp} {args : List Arg} {g : Id → List Operand → Emit α}
    {gives : α → List Id} (h : ids ⊆ needs)
    (hg : ∀ t operands, Safe scope (g t operands) (refs operands ++ ([t] ++ needs)) gives) :
    Safe scope (do g (← temp ids type) (← args.mapM (arg ids))) needs gives := by
  refine (temp_safe type h).bind fun t => ?_
  exact (args_safe args (List.Subset.trans h (subset_append_right _ _))).bind fun operands => hg _ _

theorem math_safe (number : Nat) (h : type :: refs operands ⊆ needs) :
    Safe scope (build (Build.emitMath type none number operands)) needs fun id => [id] :=
  build_safe (Build.emitMath_safe number h)

theorem expr_safe (e : Expr) (h : ids ⊆ needs) : Safe scope (expr ids e) needs fun id => [id] := by
  cases e with
  | use v => exact use_safe v
  | constant text k => exact constant_safe text k
  | type k => exact typeOf_safe k
  | pointer k storage => exact build_safe (Build.pointerTo_safe k storage)
  | array a =>
    refine Safe.get (fun b => (b.symbols.arrays.get? a).toList.map ArraySlot.storageVar)
      (fun b opened held hb id hid => ?_) fun b => ?_
    · obtain ⟨slot, hslot, rfl⟩ := mem_map.1 hid
      exact hb.arrays a slot (Option.mem_toList.1 hslot)
    · cases b.symbols.arrays.get? a with
      | none => exact Safe.fail
      | some => exact Safe.pure (by simp)
  | coordinate query =>
    refine Safe.surroundings (Safe.read ?_)
    cases hq : scope.builtins.get? query with
    | none => exact Safe.fail
    | some => exact Safe.pure (by simp [Scope.builtin_mem hq])
  | callee name =>
    refine Safe.surroundings (Safe.read ?_)
    cases hc : scope.callees.get? name with
    | none => exact Safe.fail
    | some => exact Safe.pure (by simp [Scope.callee_mem hc])
  | instr op type args =>
    exact typed_safe h fun t operands => emit_safe op (by simp)
  | math op type args =>
    exact typed_safe h fun t operands => math_safe _ (by simp)

theorem effect_safe (c : Effect) (h : ids ⊆ needs) :
    Safe scope (effect ids c) needs fun _ => [] := by
  cases c with
  | perform op args => exact (args_safe args h).bind fun operands => emitVoid_safe op (by simp)
  | define v op type args =>
    exact typed_safe h fun t operands => defineAs_safe v op (by simp)
  | defineMath v op type args =>
    refine typed_safe h fun t operands => ?_
    intro opened held
    simp only [bind_apply]
    refine (resultFor_takes v opened held).bind fun result => ?_
    have hrefs : t :: refs operands ⊆ [result] ++ (refs operands ++ ([t] ++ needs)) := by
      simp
    exact (build_takes [result] (fun owed => Build.emitMath_takes op.code owed hrefs) opened
      held).bind fun _ => define_safe v (by simp) opened held
  | forward v t => exact (temp_safe t h).bind fun id => forward_safe v (by simp)

/-- Emitting a recipe keeps the ledger. -/
theorem lines_safe (ls : List Line) (h : ids ⊆ needs) :
    Safe scope (lines ids ls) needs fun ids => ids := by
  induction ls generalizing ids needs with
  | nil => exact .pure h
  | cons l ls ih =>
    cases l with
    | value e =>
      refine (expr_safe e h).bind fun id => ih ?_
      rw [append_subset]
      exact ⟨List.Subset.trans h (subset_append_right _ _), by simp⟩
    | effect c => exact (effect_safe c h).bind fun _ => ih h

theorem recipe_safe {given : List Id} (selection : Select α) (h : given ⊆ needs) :
    Safe scope (recipe given selection) needs Prod.snd := by
  refine .read (peek fun b => ?_)
  split
  · exact (lines_safe _ h).bind fun ids => .pure (by simp)
  · exact (lines_safe _ h).bind fun _ => .fail

end Emit

end Codegen

end KernelForge
