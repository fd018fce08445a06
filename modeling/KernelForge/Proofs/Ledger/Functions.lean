import KernelForge.Proofs.Ledger.Assembly

/-!
# The ledger of functions

At the end of a function nothing is reserved and every block that was mentioned is open, so the
function owes nothing but labels of blocks that it names and does not have (`Emit.body_settles`).
Assembling a declared function settles the debt of its id (`Assemble.function_settles`):
`Assembler.Tidy done held` says that the functions that are not `done` owe theirs.
-/

namespace KernelForge.Codegen

open List hiding get modify
open Lir (Kind ValueId BlockId)
open Spirv
open Build (name_safe place place_safe place_takes typeOf_safe)

variable [Opening] {held' params : List Id} {entry : BlockId} {binary : Binary} {b b' : Body}
  {name : String}

namespace Emit

variable {scope : Scope} {needs : List Id} {block : Lir.Block}

/-! ## Storage -/

theorem declareArray_safe (a : Lir.ArrayId) {slot : ArraySlot} (h : slot.storageVar ∈ needs) :
    Safe scope (modify fun b => { b with symbols := { b.symbols with
      arrays := b.symbols.arrays.insert a slot } }) needs fun _ => [] := by
  intro opened held b u b' hb hn hrun
  cases modify_ok.1 hrun
  refine ⟨{ hb with arrays := ?_ }, fun _ hid => hid, fun _ hid => by cases hid⟩
  exact Table.forall_insert (p := fun slot : ArraySlot => b.Knows slot.storageVar) hb.arrays
    (hn _ h)

omit [Opening] in
theorem build_bind {α β : Type} (x : Build α) (y : α → Build β) :
    (build (x >>= y) : Emit β) = build x >>= fun a => build (y a) :=
  funext fun _ => within_bind (fun _ _ => rfl) fun _ _ _ => rfl

theorem privateArray_safe (a : Lir.ArrayDecl) : Safe scope (privateArray a) needs fun _ => [] := by
  unfold privateArray
  rw [← bind_assoc, ← build_bind]
  refine (build_safe (Build.arrayPointer_safe _ _ _)).bind fun pointer => ?_
  refine (build_safe (Build.localVariable_safe (by simp))).bind fun id => ?_
  exact declareArray_safe _ (by simp)

theorem debugName_safe {id : Id} (text : String) (h : id ∈ needs) :
    Safe scope (debugName id text) needs fun _ => [] := by
  refine .read ?_
  split
  · exact build_safe (name_safe _ h)
  · exact .pure (nil_subset _)

theorem valueSlot_safe (v : ValueId) (k : Kind) : Safe scope (valueSlot v k) needs fun _ => [] := by
  refine (build_safe (Build.pointerTo_safe _ _)).bind fun pointer => ?_
  refine (build_safe (Build.localVariable_safe (by simp))).bind fun slot => ?_
  refine (debugName_safe _ (by simp)).bind fun _ => ?_
  intro opened held b u b' hb hn hrun
  cases modify_ok.1 hrun
  refine ⟨{ hb with slots := ?_ }, fun _ hid => hid, fun _ hid => by cases hid⟩
  exact Table.forall_insert hb.slots (hn slot (by simp))

theorem privateStorage_safe : Safe scope privateStorage needs fun _ => [] := by
  refine .read ?_
  refine (Safe.forM fun a _ => privateArray_safe a).bind fun _ => spilling_safe.bind fun spill => ?_
  split
  · exact .forM fun e _ => valueSlot_safe _ _
  · exact .pure (nil_subset _)

/-! ## Blocks -/

/-- Opening a block settles the debt of its label. -/
theorem openBlock_takes (id : Id) (opened : List BlockId) (held : List Id) :
    Takes (Body.Tidy scope opened (id :: held)) Body.Knows (openBlock id scope) needs
      (fun _ => Body.Tidy scope opened held) fun _ => [] :=
  build_takes [id] (fun owed => place_takes ⟨.label, none, some id, []⟩ owed (nil_subset _) rfl
    nofun nofun) opened held

/-- A block after its label. -/
def afterLabel (ordinal : Nat) (block : Lir.Block) (id : Id) : Emit Unit := do
  debugName id ("B" ++ Text.natText block.id.index.toNat ++ "_kernel" ++ Text.natText ordinal)
  merges block
  (block.ops.drop (leadingMerges block.ops).length).forM op
  terminator block.terminator

/-- A block after its label was given. -/
def labelled (ordinal : Nat) (block : Lir.Block) (id : Id) : Emit Unit := do
  openBlock id
  afterLabel ordinal block id

theorem labelled_takes (ordinal : Nat) (id : Id) (opened : List BlockId)
    (held : List Id) (htargets : ∀ target ∈ targets block.terminator, Named scope.function target) :
    Takes (Body.Tidy scope opened (id :: held)) Body.Knows (labelled ordinal block id scope) [id]
      (fun _ => Body.Tidy scope opened held) fun _ => [] := by
  have hsafe : Safe scope (afterLabel ordinal block id) [id] fun _ => [] := by
    refine (debugName_safe _ (by simp)).bind fun _ => (merges_safe block).bind fun _ => ?_
    refine (Safe.forM fun o _ => op_safe o).bind fun _ => ?_
    exact terminator_safe _ htargets
  exact (openBlock_takes id opened held).bind fun _ => hsafe opened held

variable {opened : List BlockId}

/-- Assembling a block opens it. -/
theorem block_takes (ordinal : Nat) (held : List Id)
    (hown : Named scope.function block.id) (hnew : block.id ∉ opened)
    (htargets : ∀ target ∈ targets block.terminator, Named scope.function target) :
    Takes (Body.Tidy scope opened held) Body.Knows (Emit.block ordinal block scope) needs
      (fun _ => Body.Tidy scope (block.id :: opened) held) fun _ => [] := by
  intro b u b' hb hn hrun
  simp only [Emit.block, bind_apply] at hrun
  obtain ⟨id, b₁, hlabel, hrun⟩ := bind_ok.1 hrun
  obtain ⟨hb₁, hmono₁, hid⟩ := label_safe hown opened held hb hn hlabel
  have hget : b₁.symbols.labels.get? block.id = some id := by
    have heq : b.label block.id = (id, b₁) := modifyGet_ok.1 hlabel
    have hget := b.label_get block.id
    rw [heq] at hget
    exact hget
  obtain ⟨hb₂, hmono₂, hgives⟩ :=
    labelled_takes ordinal id _ held htargets (hb₁.takeLabel hget hnew) hid hrun
  exact ⟨hb₂, fun id hid => hmono₂ id (hmono₁ id hid), hgives⟩

/-- Assembling blocks with names of their own opens all of them. -/
theorem blocks_takes (ordinal : Nat) {blocks : List Lir.Block} (held : List Id)
    (hsub : blocks ⊆ scope.function.blocks) (hnodup : (blocks.map Lir.Block.id).Nodup)
    (hnew : ∀ b ∈ blocks, b.id ∉ opened) :
    Takes (Body.Tidy scope opened held) Body.Knows
      ((blocks.forM (Emit.block ordinal)) scope) needs
      (fun _ => Body.Tidy scope ((blocks.map Lir.Block.id).reverse ++ opened) held)
      fun _ => [] := by
  induction blocks generalizing opened needs with
  | nil => exact .pure (nil_subset _)
  | cons b blocks ih =>
    obtain ⟨hb, hsub⟩ := cons_subset.1 hsub
    obtain ⟨hfirst, hnodup⟩ := nodup_cons.1 (map_cons ▸ hnodup)
    have hrest : ∀ b' ∈ blocks, b'.id ∉ b.id :: opened := by
      intro b' hb' hin
      rcases mem_cons.1 hin with heq | hin
      · exact hfirst (heq ▸ mem_map_of_mem hb')
      · exact hnew b' (mem_cons_of_mem _ hb') hin
    rw [map_cons, reverse_cons, append_assoc]
    have hown : Named scope.function b.id := fun _ => mem_map_of_mem hb
    have htargets : ∀ target ∈ targets b.terminator, Named scope.function target :=
      fun target htarget hall => hall b hb target htarget
    exact (block_takes ordinal held hown (hnew b mem_cons_self) htargets).bind
      fun _ => ih hsub hnodup hrest

theorem returnBlock_takes (opened : List BlockId) (held : List Id) :
    Takes (Body.Tidy scope opened (scope.returnBlock.toList ++ held)) Body.Knows
      (returnBlock scope) needs (fun _ => Body.Tidy scope opened held) fun _ => [] := by
  simp only [returnBlock, bind_apply, read_apply, pure_bind]
  cases scope.returnBlock with
  | none => exact .pure (nil_subset _)
  | some id =>
    refine (openBlock_takes id opened held).bind fun _ => ?_
    exact terminate_safe rfl (nil_subset _) opened held

theorem prologue_safe (hp : params ⊆ needs) (hentry : Named scope.function entry) :
    Safe scope (prologue entry params) needs fun _ => [] := by
  refine privateStorage_safe.bind fun _ => (recipe_safe _ (by simpa using hp)).bind fun _ => ?_
  exact (label_safe hentry).bind fun l => terminate_safe rfl (by simp)

/-- A function body settles all that the function owes, but for the labels of
blocks that it names and does not have. -/
theorem body_settles (ordinal : Nat) {held : List Id}
    {u : Unit} (hentry : scope.function.entry? = some entry)
    (hnodup : (scope.function.blocks.map Lir.Block.id).Nodup)
    (hb : b.Tidy scope [] (scope.returnBlock.toList ++ held)) (hp : ∀ id ∈ params, b.Knows id)
    (h : body ordinal entry params scope b = .ok u b') :
    ∃ debts, b'.session.Tidy (held ++ debts) ∧ (Targeted scope.function → debts = []) ∧
      (∀ block id, b'.symbols.labels.get? block = some id →
        Owns scope.function block ∨ id ∈ debts) ∧
      (∀ id, b.Knows id → b'.Knows id) ∧
      ∀ a slot, b'.symbols.arrays.get? a = some slot → b'.Knows slot.storageVar := by
  obtain ⟨b₁, b₂, hprologue, hblocks, hreturn, hnil⟩ := body_cases h
  obtain ⟨hb₁, hmono₁, -⟩ := prologue_safe (List.Subset.refl _) (fun _ => owns_entry hentry) []
    _ hb hp hprologue
  obtain ⟨hb₂, hmono₂, -⟩ := blocks_takes ordinal _ (List.Subset.refl _) hnodup
    (by simp) hb₁ (forall_mem_nil _) hblocks
  obtain ⟨hb₃, hmono₃, -⟩ := returnBlock_takes _ held hb₂ (forall_mem_nil _) hreturn
  have hsession := hb₃.session
  rw [Symbols.debts, Table.values, hnil, map_nil] at hsession
  refine ⟨_, hsession, fun ht => ?_, fun block id hlabel => ?_,
    fun id hid => hmono₃ id (hmono₂ id (hmono₁ id hid)), hb₃.arrays⟩
  · -- every label belongs to a block of the function, and all of these are open
    refine Table.except_eq_nil fun e he => ?_
    simpa [Owns] using (hb₃.labels e he).1 ht
  · by_cases hin : Owns scope.function block
    · exact .inl hin
    · refine .inr (mem_map.2 ⟨_, mem_filter.2 ⟨Table.mem_entries_of_get? hlabel, ?_⟩, rfl⟩)
      simpa [Owns] using hin

end Emit

/-! ## Functions of a module -/

/-- Whether an id was handed out. -/
def Assembler.Knows (a : Assembler) (id : Id) : Prop := a.session.Knows id

/-- The header was emitted, the session accounts for its ids, where each declared function
that was not assembled owes its id, and all the assembler remembers is known. -/
structure Assembler.Tidy (done : List String) (held : List Id) (a : Assembler) : Prop where
  started : a.stage ≠ .empty
  session : a.session.Tidy (held ++ (a.callees.except done).map Signature.id)
  builtins : ∀ id ∈ a.builtins.values, a.Knows id
  callees : ∀ e ∈ a.callees.entries, a.Knows e.2.id
  keyed : a.callees.Keyed
  done : ∀ name ∈ done, (a.callees.get? name).isSome
  kernels : ∀ k ∈ a.kernels, a.Knows k.2
  arrays : ∀ id slot, a.symbols.arrays.get? id = some slot → a.Knows slot.storageVar

namespace Assembler.Tidy

variable {done : List String} {held : List Id} {a : Assembler}

theorem withSession {session : Session} (h : a.Tidy done held)
    (hs : session.Tidy (held' ++ (a.callees.except done).map Signature.id))
    (hk : ∀ id, a.session.Knows id → session.Knows id) :
    Assembler.Tidy done held' { a with session } where
  started := h.started
  session := hs
  builtins id hid := hk id (h.builtins id hid)
  callees e he := hk _ (h.callees e he)
  keyed := h.keyed
  done := h.done
  kernels k hkern := hk _ (h.kernels k hkern)
  arrays id slot hs := hk _ (h.arrays id slot hs)

/-- Whoever assembles a function takes its id in hand. -/
theorem takeCallee (h : a.Tidy done held) {signature : Signature}
    (hc : a.callees.get? name = some signature) (hnew : name ∉ done) :
    a.Tidy (name :: done) (signature.id :: held) := by
  refine { h with session := h.session.perm ?_, done := ?_ }
  · have hp := (Table.except_perm h.keyed hc hnew).map Signature.id
    exact (hp.append_left held).trans perm_middle
  · intro name' hin
    rcases mem_cons.1 hin with rfl | hin
    · rw [hc]
      rfl
    · exact h.done name' hin

end Assembler.Tidy

open Assembler (Tidy Knows)

namespace Assemble

variable {done : List String} {held needs : List Id} {α : Type} {gives : α → List Id}
    {step : Build α}

/-- A step of the session, which may settle some of the held ids. -/
theorem build_takes (settled : List Id)
    (h : ∀ owed, Takes (Session.Tidy (settled ++ owed)) Session.Knows step needs
      (fun _ => Session.Tidy owed) gives) (done : List String) (held : List Id) :
    Takes (Tidy done (settled ++ held)) Knows (build step) needs
      (fun _ => Tidy done held) gives := by
  intro a x a' ha hn hrun
  obtain ⟨session, hstep, rfl⟩ := build_ok.1 hrun
  have hs := append_assoc _ _ _ ▸ ha.session
  obtain ⟨hs', hmono, hgives⟩ := h _ hs hn hstep
  exact ⟨ha.withSession hs' hmono, hmono, hgives⟩

theorem build_keeps (h : Build.Safe step needs gives) :
    Keeps (Tidy done held) Knows (build step) needs gives :=
  build_takes [] h done held

theorem fresh_takes (done : List String) (held : List Id) :
    Takes (Tidy done held) Knows (build Build.fresh) needs
      (fun id => Tidy done (id :: held)) fun id => [id] := by
  intro a id a' ha hn hrun
  obtain ⟨session, hstep, rfl⟩ := build_ok.1 hrun
  obtain ⟨hs', hmono, hgives⟩ := Build.fresh_takes _ ha.session hn hstep
  exact ⟨ha.withSession hs' hmono, hmono, hgives⟩

/-- Stages and names are not on the books. -/
theorem modify_keeps {g : Assembler → Assembler} (hs : ∀ a, (g a).session = a.session)
    (hg : ∀ a, a.Tidy done held → (∀ id ∈ needs, a.Knows id) → (g a).Tidy done held) :
    Keeps (Tidy done held) Knows (modify g : Assemble PUnit) needs
      fun _ => [] := by
  intro a u a' ha hn hrun
  cases modify_ok.1 hrun
  refine ⟨hg a ha hn, fun id hid => ?_, fun _ hid => by cases hid⟩
  unfold Knows
  rw [hs]
  exact hid

omit [Opening] in
theorem build_bind {β : Type} (x : Build α) (y : α → Build β) :
    (build (x >>= y) : Assemble β) = build x >>= fun a => build (y a) :=
  within_bind (fun _ _ => rfl) fun _ _ _ => rfl

theorem groupArray_keeps (array : Lir.ArrayDecl) :
    Keeps (Tidy done held) Knows (groupArray array) needs fun _ => [] := by
  unfold groupArray
  rw [← bind_assoc, ← build_bind]
  refine (build_keeps (Build.arrayPointer_safe _ _ _)).bind fun pointer => ?_
  refine (build_keeps (Build.globalVariable_safe _ (by simp))).bind fun id => ?_
  refine (build_keeps (Build.decorate_safe _ (by simp))).bind fun _ => ?_
  refine modify_keeps (fun _ => rfl) fun a ha hn => { ha with arrays := ?_ }
  exact Table.forall_insert (p := fun slot : ArraySlot => a.Knows slot.storageVar) ha.arrays
    (hn id (by simp))

theorem shape_safe (f : Lir.Function) : Build.Safe (shape f) needs fun s => s.1 :: s.2.1 := by
  unfold shape
  split
  · refine (Build.pointerTo_safe _ _).bind fun bytePtr => (typeOf_safe _).bind fun long => ?_
    exact (typeOf_safe _).bind fun void => .pure (by simp)
  · refine (typeOf_safe _).bind fun ret => ?_
    refine (Build.Safe.mapM fun p _ => typeOf_safe p.kind).bind fun types => ?_
    exact .pure (by simp)

theorem param_safe {type : Id} (h : type ∈ needs) :
    Build.Safe (param type) needs fun id => [id] := by
  intro owed
  refine (Build.fresh_takes owed).bind fun id => ?_
  refine (place_takes ⟨.functionParameter, some type, some id, []⟩ owed ?_ rfl nofun nofun).bind
    fun _ => .pure (by simp)
  simp [Instruction.mentions, h]

variable {id : Id}

omit [Opening] in
theorem mem_of_partNames {f : Lir.Function} {e : Id × String} (h : e ∈ partNames f id params) :
    e.1 ∈ id :: params := by
  rcases mem_cons.1 h with rfl | h
  · exact mem_cons_self
  refine mem_cons_of_mem _ ?_
  split at h
  · exact (of_mem_zip h).1
  · obtain ⟨p, hp, hname⟩ := mem_filterMap.1 h
    obtain ⟨_, -, rfl⟩ := Option.map_eq_some_iff.1 hname
    exact (of_mem_zip hp).2

theorem debugNames_keeps (f : Lir.Function) (h : id :: params ⊆ needs) :
    Keeps (Tidy done held) Knows (debugNames f id params) needs
      fun _ => [] := by
  intro a u a' ha hn hrun
  replace hrun := get_bind_ok.1 hrun
  split at hrun
  · refine build_keeps (.forM fun e he => ?_) ha hn hrun
    exact name_safe _ (h (mem_of_partNames he))
  · obtain ⟨_, rfl⟩ := pure_ok.1 hrun
    exact ⟨ha, fun _ hid => hid, by simp⟩

theorem publish_keeps (f : Lir.Function) (h : id ∈ needs) :
    Keeps (Tidy done held) Knows (publish f id) needs fun _ => [] := by
  unfold publish
  split
  · intro a u a' ha hn hrun
    replace hrun := get_bind_ok.1 hrun
    refine build_keeps (place_safe ?_ rfl ?_ ?_) ha (forall_mem_append.2 ⟨ha.builtins, hn⟩) hrun
    · simp [Instruction.mentions, h]
    · simp
    · simp
  · exact build_keeps (Build.decorate_safe _ (by simp [h]))

variable {signature : Signature}

/-- Opening a function settles the debt of its id. -/
theorem openFunction_takes (f : Lir.Function) (h : signature.id ∈ needs) :
    Takes (Tidy done (signature.id :: held)) Knows (openFunction f signature)
      needs (fun _ => Tidy done held) fun params => params := by
  refine (build_keeps (shape_safe f)).bind fun s => ?_
  refine (build_keeps (Build.functionType_safe (by simp))).bind fun functionType => ?_
  refine (build_takes [signature.id] (fun owed => place_takes
    ⟨.function, some s.1, some signature.id,
      [.enumerant .functionControl s.2.2, .ref functionType]⟩ owed
    (by simp [Instruction.mentions]) rfl nofun nofun) done held).bind fun _ => ?_
  refine (build_keeps (.mapM fun type htype => param_safe ?_)).bind fun params => ?_
  · simp [htype]
  refine (debugNames_keeps f (by simp [h])).bind fun _ => ?_
  exact (publish_keeps f (by simp [h])).bind fun _ => .pure (by simp)

theorem returnBlock_takes (f : Lir.Function) (done : List String) (held : List Id) :
    Takes (Tidy done held) Knows (returnBlock f) needs
      (fun target => Tidy done (target.toList ++ held)) Option.toList := by
  intro a target a' ha hn hrun
  replace hrun := get_bind_ok.1 hrun
  split at hrun
  · obtain ⟨id, a₁, hfresh, hrun⟩ := bind_ok.1 hrun
    obtain ⟨rfl, rfl⟩ := pure_ok.1 hrun
    exact fresh_takes done held ha hn hfresh
  · obtain ⟨rfl, rfl⟩ := pure_ok.1 hrun
    exact ⟨ha, fun _ hid => hid, by simp⟩

variable {a a' : Assembler} {f : Lir.Function} {target : Option Id}

/-- A body starts tidy when only arrays are named. -/
theorem body_starts (ha : a.Tidy done (target.toList ++ held))
    (hn : a.symbols = { arrays := a.symbols.arrays }) (ht : ∀ id ∈ target, a.Knows id) :
    Body.Tidy ⟨a.settings, f, a.builtins, a.callees, target⟩ []
      (target.toList ++ (held ++ (a.callees.except done).map Signature.id))
      ⟨a.session, a.symbols⟩ where
  session := by
    have hs := ha.session
    rw [hn]
    simpa [Symbols.debts, Table.except, Table.values, EmptyCollection.emptyCollection, Table.empty]
      using hs
  surroundings := by
    intro id hid
    simp only [Scope.ids, mem_append, mem_map, Option.mem_toList] at hid
    rcases hid with (hid | ⟨signature, hsig, rfl⟩) | hid
    · exact ha.builtins id hid
    · obtain ⟨e, he, rfl⟩ := mem_map.1 hsig
      exact ha.callees e he
    · exact ht id hid
  values := by
    rw [hn]
    intro v id hid
    cases hid
  slots := by
    rw [hn]
    intro v id hid
    cases hid
  arrays := ha.arrays
  labels := by
    rw [hn]
    intro e he
    cases he
  keyed := by
    rw [hn]
    exact nodup_nil
  opened := by simp

/-- The session of a function under assembly is the session of the assembler. -/
theorem inFunction_tidy (ha : a.Tidy done held')
    (hs : b.session.Tidy (held ++ (a.callees.except done).map Signature.id))
    (hmono : ∀ id, a.session.Knows id → b.Knows id)
    (harrays : ∀ id slot, b.symbols.arrays.get? id = some slot → b.Knows slot.storageVar) :
    Tidy done held { a with session := b.session, symbols := b.symbols } :=
  { ha.withSession hs hmono with arrays := harrays }

theorem enter_keeps (stage : Stage) (hs : stage ≠ .empty) :
    Keeps (Tidy done held) Knows (enter stage) needs fun _ => [] :=
  modify_keeps (fun _ => rfl) fun _ ha _ => { ha with started := hs }

theorem prepare_takes (f : Lir.Function) (h : signature.id ∈ needs) :
    Takes (Tidy done (signature.id :: held)) Knows (prepare f signature) needs
      (fun r => Tidy done (r.2.toList ++ held)) fun r => r.1 ++ r.2.toList := by
  refine .bind (modify_keeps (fun _ => rfl) fun a ha _ =>
    { ha with arrays := fun _ _ hslot => nomatch hslot }) fun _ => ?_
  refine (Takes.forM fun array _ => groupArray_keeps array).bind fun _ => ?_
  refine (enter_keeps .inFunction nofun).bind fun _ => ?_
  refine (openFunction_takes f (by simp [h])).bind fun params => ?_
  refine (fresh_takes done held).bind fun first => ?_
  refine (build_takes [first] (fun owed => place_takes
    ⟨.label, none, some first, []⟩ owed (nil_subset _) rfl nofun nofun) done held).bind fun _ => ?_
  refine (enter_keeps .inBlock nofun).bind fun _ => ?_
  refine (returnBlock_takes f done held).bind fun target => ?_
  intro a r a' ha hn hrun
  obtain ⟨rfl, rfl⟩ := pure_ok.1 hrun
  refine ⟨ha, fun _ hid => hid, fun id hid => hn id ?_⟩
  simp only [mem_append] at hid ⊢
  rcases hid with hid | hid
  · exact .inr (.inr (.inr (.inr (.inl hid))))
  · exact .inl hid

theorem prepare_starts (ha : a.Tidy done (signature.id :: held)) (hid : a.Knows signature.id)
    (h : prepare f signature a = .ok (params, target) a') :
    a'.Tidy done (target.toList ++ held) ∧ (∀ id, a.Knows id → a'.Knows id) ∧
      (∀ id ∈ params, a'.Knows id) ∧
      Body.Tidy ⟨a'.settings, f, a'.builtins, a'.callees, target⟩ []
        (target.toList ++ (held ++ (a'.callees.except done).map Signature.id))
        ⟨a'.session, a'.symbols⟩ := by
  have hunnamed : a'.symbols = { arrays := a'.symbols.arrays } := by
    obtain ⟨_, _, rfl⟩ := prepare_frame h
    rfl
  obtain ⟨ha', hmono, hknown⟩ := prepare_takes f (mem_singleton_self _) ha
    (forall_mem_singleton.2 hid) h
  have htarget : ∀ id ∈ target, a'.Knows id := fun id hid =>
    hknown id (mem_append_right _ (Option.mem_toList.2 hid))
  exact ⟨ha', hmono, fun id hid => hknown id (mem_append_left _ hid),
    body_starts ha' hunnamed htarget⟩

variable {u : Unit}

/-- The body of a declared function settles the debt of its id; what it may owe
are labels of blocks that it does not have. -/
theorem define_settles (hentry : f.entry? = some entry)
    (hnodup : (f.blocks.map Lir.Block.id).Nodup) (ha : a.Tidy done (signature.id :: held))
    (hid : a.Knows signature.id) (h : define f entry signature a = .ok u a') :
    ∃ debts, a'.Tidy done (debts ++ held) ∧ (Targeted f → debts = []) ∧
      ∀ block id, a'.symbols.labels.get? block = some id → Owns f block ∨ id ∈ debts := by
  obtain ⟨_, a₁, hprepare, h⟩ := bind_ok.1 h
  obtain ⟨ha₁, hmono₁, hparams, hstart⟩ := prepare_starts ha hid hprepare
  replace h := get_bind_ok.1 h
  obtain ⟨_, a₂, hbody, h⟩ := bind_ok.1 h
  obtain ⟨b, hrun, rfl⟩ := inFunction_ok.1 hbody
  obtain ⟨debts, hb, htargeted, hlabels, hmono, harrays⟩ :=
    Emit.body_settles _ hentry hnodup hstart hparams hrun
  have hp : (held ++ (a₁.callees.except done).map Signature.id ++ debts).Perm
      (debts ++ held ++ (a₁.callees.except done).map Signature.id) := by
    rw [append_assoc debts]
    exact perm_append_comm
  have ha₂ := inFunction_tidy ha₁ (hb.perm hp) hmono harrays
  obtain ⟨_, a₃, hend, h⟩ := bind_ok.1 h
  have hplace : Build.Safe (place ⟨.functionEnd, none, none, []⟩) [] fun _ => [] :=
    place_safe (nil_subset _) rfl (by simp) fun _ => rfl
  obtain ⟨ha₃, hmono₃, -⟩ := build_keeps hplace ha₂ (forall_mem_nil _) hend
  obtain ⟨session, -, rfl⟩ := build_ok.1 hend
  cases modify_ok.1 h
  refine ⟨debts, { ha₃ with started := nofun, kernels := ?_ }, htargeted, hlabels⟩
  intro k hk
  split at hk
  · exact forall_mem_append.2
      ⟨ha₃.kernels, forall_mem_singleton.2 (hmono₃ _ (hmono _ (hmono₁ _ hid)))⟩ k hk
  · exact ha₃.kernels k hk

/-- A declared function owes its id. -/
theorem declare_takes (ha : a.Tidy done held) (h : declare f a = .ok signature a') :
    a'.Tidy done held ∧ a'.callees.get? f.name = some signature := by
  rcases declare_cases h with ⟨hc, rfl⟩ | ⟨hc, hnext, rfl⟩
  · exact ⟨ha, hc⟩
  · obtain ⟨ha₁, hmono, hid⟩ := fresh_takes done held ha (forall_mem_nil _)
      (show build Build.fresh a = .ok a.session.draft.next _ from rfl)
    have hnew : f.name ∉ done := fun hin => by
      have hsome := ha.done _ hin
      rw [hc] at hsome
      cases hsome
    refine ⟨{ ha₁ with
      session := ha₁.session.perm ?_
      callees := ?_
      keyed := ha.keyed.insert_of_none hc
      done := ?_ }, Table.get?_insert_self _ _ _⟩
    · rw [Table.except_insert_of_none hc hnew, map_append, ← append_assoc, ← hnext]
      exact (perm_append_singleton _ _).symm
    · intro e he
      rw [Table.entries_insert_of_none hc, mem_append, mem_singleton] at he
      rcases he with he | rfl
      · exact ha₁.callees e he
      · exact hnext ▸ hid _ (mem_singleton_self _)
    · intro name hin
      rw [Table.get?_insert]
      split
      · rfl
      · exact ha.done name hin

/-- Assembling a function settles the debt of its id. -/
theorem function_settles (ht : Targeted f) (hnodup : (f.blocks.map Lir.Block.id).Nodup)
    (hnew : f.name ∉ done) (ha : a.Tidy done held) (h : function f a = .ok u a') :
    a'.Tidy (f.name :: done) held := by
  obtain ⟨entry, signature, a₁, hentry, hdeclare, hdefine⟩ := function_ok ha.started h
  obtain ⟨ha₁, hc⟩ := declare_takes ha hdeclare
  have hid : a₁.Knows signature.id := ha₁.callees _ (Table.mem_entries_of_get? hc)
  obtain ⟨debts, ha', htargeted, -⟩ :=
    define_settles hentry hnodup (ha₁.takeCallee hc hnew) hid hdefine
  rw [htargeted ht] at ha'
  exact ha'

/-! ## The end of a module -/

theorem exactMode_safe (h : id ∈ needs) : Build.Safe (exactMode id) needs fun _ => [] :=
  place_safe (by simpa [Instruction.mentions] using h) rfl nofun nofun

theorem exactKernels_tidy (ha : a.Tidy done held) (h : exactKernels a = .ok u a') :
    a'.Tidy done held ∧ a'.callees = a.callees := by
  replace h := get_bind_ok.1 h
  split at h
  · have hsafe : Build.Safe (a.kernels.forM fun k => exactMode k.2) (a.kernels.map Prod.snd)
        fun _ => [] :=
      Build.Safe.forM fun k hk => exactMode_safe (mem_map_of_mem hk)
    have hknown : ∀ id ∈ a.kernels.map Prod.snd, a.Knows id := by
      intro id hid
      obtain ⟨k, hk, rfl⟩ := mem_map.1 hid
      exact ha.kernels k hk
    refine ⟨(build_keeps hsafe ha hknown h).1, ?_⟩
    obtain ⟨_, -, rfl⟩ := build_ok.1 h
    rfl
  · obtain ⟨_, rfl⟩ := pure_ok.1 h
    exact ⟨ha, rfl⟩

/-- Closing a module owes nothing, and its words are those of its draft. -/
theorem finish_tidy (ha : a.Tidy done held) (h : finish a = .ok binary a') :
    a'.Tidy done held ∧ a'.callees = a.callees ∧ binary.words = a'.session.words := by
  obtain ⟨_, -, h⟩ := look_ok expectStage_ok h
  obtain ⟨_, a₁, hexact, h⟩ := bind_ok.1 h
  obtain ⟨ha₁, hc⟩ := exactKernels_tidy ha hexact
  replace h := modify_bind_ok.1 h
  obtain ⟨rfl, rfl⟩ := pure_ok.1 h
  exact ⟨{ ha₁ with started := nofun }, hc, rfl⟩

end Assemble

end KernelForge.Codegen
