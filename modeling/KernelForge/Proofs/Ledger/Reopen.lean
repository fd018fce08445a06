import KernelForge.Proofs.Ledger.Module

/-!
# The ledger of one function

One ledger for a whole module needs functions and blocks with names of their own. A ledger may
however be opened at any time, with the balance it finds; so every assembler with a header has one,
and the ledger of a single function can be opened at its definition.
-/

namespace KernelForge.Codegen

open List Assemble Assembler
open Lir (BlockId)
open Spirv

/-! ## Opening a ledger -/

/-- A ledger may be opened anew, whatever known ids are owed from then on. -/
theorem Session.Tidy.reopen [o₀ : Opening] {s : Session} {owed owed' : List Id} (h : s.Tidy owed)
    (hk : ∀ id ∈ owed', s.Knows id) :
    ∃ o : Opening, o.since = s.draft.next ∧ o.sections = s.draft.module.sections ∧
      (∀ id, o.count id = (results s.draft.instructions).count id + owed'.count id) ∧
      @Session.Tidy o owed' s := by
  have hnone : ∀ id : Nat, ¬ (0 < id ∧ id < s.draft.next) →
      (results s.draft.instructions).count id + owed'.count id = 0 := by
    intro id hid
    have hresult : id ∉ results s.draft.instructions := fun hin =>
      hid (h.accounts.known_result h.since hin)
    have howed : id ∉ owed' := fun hin => hid (hk id hin).has
    rw [count_eq_zero.2 hresult, count_eq_zero.2 howed]
  have hpos := h.positive
  obtain ⟨-, -, -, hmentions, htyped, hapart, -, htypes, hpointers, harrays, hfunctions, hconstants,
    himport⟩ := h
  let o : Opening := ⟨s.draft.next,
    fun id => (results s.draft.instructions).count id + owed'.count id, s.draft.module.sections,
    hpos, hnone 0 (by simp)⟩
  refine ⟨o, rfl, rfl, fun _ => rfl, Nat.le_refl _, .refl _, fun id => ?_, hmentions,
    htyped, hapart, fun id hid => (hk id hid).plain, htypes, hpointers, harrays, hfunctions,
    hconstants, himport⟩
  show _ = if id < s.draft.next then _ else if id < s.draft.next then 1 else 0
  split
  · rfl
  · next hlt => exact hnone id fun hid => hlt hid.2

variable {held held' : List Id} {done : List String} {entry : BlockId} {u : Unit}

theorem Body.Tidy.reopen [Opening] {scope : Scope} {opened : List BlockId}
    {b : Body} (h : b.Tidy scope opened held) (hk : ∀ id ∈ held', b.Knows id) :
    ∃ o : Opening, @Body.Tidy o scope opened held' b := by
  have hall : ∀ id ∈ held' ++ b.symbols.debts opened, b.session.Knows id :=
    forall_mem_append.2 ⟨hk, fun _ hid => h.session.owed_known (mem_append_right _ hid)⟩
  obtain ⟨hsession, hscope, hvalues, hslots, harrays, hlabels, hkeyed, hopened⟩ := h
  obtain ⟨o, -, -, -, hs⟩ := hsession.reopen hall
  exact ⟨o, hs, hscope, hvalues, hslots, harrays, hlabels, hkeyed, hopened⟩

/-- No declared function is left when all of them are counted as done. -/
theorem except_keys (t : Table String Signature) : t.except t.keys = [] :=
  Table.except_eq_nil fun _ he => mem_map_of_mem he

theorem Assembler.Tidy.reopen [Opening] {a : Assembler}
    (h : a.Tidy done held) (hk : ∀ id ∈ held', a.Knows id) :
    ∃ o : Opening, o.since = a.session.draft.next ∧
      o.sections = a.session.draft.module.sections ∧
      (∀ id, o.count id = (results a.session.draft.instructions).count id + held'.count id) ∧
      @Tidy o a.callees.keys held' a := by
  obtain ⟨hstarted, hsession, hbuiltins, hcallees, hkeyed, -, hkernels, harrays⟩ := h
  obtain ⟨o, hsince, hsections, hcount, hs⟩ := hsession.reopen hk
  have hdone : ∀ name ∈ a.callees.keys, (a.callees.get? name).isSome := fun name hin => by
    obtain ⟨e, he, rfl⟩ := mem_map.1 hin
    exact Table.get?_isSome_of_mem he
  refine ⟨o, hsince, hsections, hcount, hstarted, ?_, hbuiltins, hcallees, hkeyed, hdone, hkernels,
    harrays⟩
  rw [except_keys, map_nil, append_nil]
  exact hs

/-! ## Functions of any kind -/

namespace Emit

variable {scope : Scope}

variable {opened : List BlockId} {ordinal : Nat} {b b' : Body} {held : List Id}

/-- A block that was opened before gets its label once more; the ledger is opened anew for it. -/
theorem block_reopens [Opening] {block : Lir.Block} (hmem : block ∈ scope.function.blocks)
    (hb : b.Tidy scope opened held) (hrun : Emit.block ordinal block scope b = .ok u b') :
    ∃ (o : Opening) (opened' : List BlockId), @Body.Tidy o scope opened' held b' ∧
      ∀ id, b.Knows id → b'.Knows id := by
  have hown : Named scope.function block.id := fun _ => mem_map_of_mem hmem
  have htargets : ∀ target ∈ targets block.terminator, Named scope.function target :=
    fun target htarget hall => hall block hmem target htarget
  by_cases hnew : block.id ∈ opened
  · simp only [Emit.block, bind_apply] at hrun
    obtain ⟨id, b₁, hlabel, hrun⟩ := bind_ok.1 hrun
    obtain ⟨hb₁, hmono₁, hid⟩ := label_safe hown opened held hb (forall_mem_nil _) hlabel
    have hheld : ∀ id ∈ held, b₁.Knows id := fun id hin => by
      exact hb₁.session.owed_known (mem_append_left _ hin)
    obtain ⟨o, ho⟩ := hb₁.reopen (forall_mem_cons.2 ⟨hid id mem_cons_self, hheld⟩)
    obtain ⟨hb₂, hmono₂, -⟩ :=
      @labelled_takes o scope block ordinal id opened held htargets _ _ _ ho hid hrun
    exact ⟨o, opened, hb₂, fun id hin => hmono₂ id (hmono₁ id hin)⟩
  · obtain ⟨hb', hmono, -⟩ := block_takes ordinal held hown hnew htargets hb (forall_mem_nil _) hrun
    exact ⟨_, _, hb', hmono⟩

theorem blocks_reopen {o : Opening} {blocks : List Lir.Block} {u : PUnit}
    (hsub : blocks ⊆ scope.function.blocks)
    (hb : @Body.Tidy o scope opened held b)
    (hrun : (blocks.forM (Emit.block ordinal)) scope b = .ok u b') :
    ∃ (o : Opening) (opened' : List BlockId), @Body.Tidy o scope opened' held b' ∧
      ∀ id, b.Knows id → b'.Knows id := by
  induction blocks generalizing b opened o with
  | nil =>
    obtain ⟨_, rfl⟩ := pure_ok.1 hrun
    exact ⟨_, opened, hb, fun _ hid => hid⟩
  | cons block blocks ih =>
    obtain ⟨hmem, hsub⟩ := cons_subset.1 hsub
    obtain ⟨_, b₁, hfirst, hrest⟩ := bind_ok.1 hrun
    obtain ⟨o₁, opened₁, hb₁, hmono₁⟩ := block_reopens hmem hb hfirst
    obtain ⟨o₂, opened₂, hb₂, hmono₂⟩ := ih hsub hb₁ hrest
    exact ⟨o₂, opened₂, hb₂, fun id hid => hmono₂ id (hmono₁ id hid)⟩

theorem body_reopens [Opening] {params held : List Id}
    (hentry : scope.function.entry? = some entry)
    (hb : b.Tidy scope [] (scope.returnBlock.toList ++ held)) (hp : ∀ id ∈ params, b.Knows id)
    (h : body ordinal entry params scope b = .ok u b') :
    ∃ (o : Opening) (owed : List Id), @Session.Tidy o owed b'.session ∧
      (∀ id, b.Knows id → b'.Knows id) ∧
      ∀ a slot, b'.symbols.arrays.get? a = some slot → b'.Knows slot.storageVar := by
  obtain ⟨b₁, b₂, hprologue, hblocks, hreturn, -⟩ := body_cases h
  obtain ⟨hb₁, hmono₁, -⟩ := prologue_safe (List.Subset.refl _) (fun _ => owns_entry hentry) []
    _ hb hp hprologue
  obtain ⟨o, opened, hb₂, hmono₂⟩ := blocks_reopen (List.Subset.refl _) hb₁ hblocks
  obtain ⟨hb₃, hmono₃, -⟩ :=
    @returnBlock_takes o _ [] opened held _ _ _ hb₂ (forall_mem_nil _) hreturn
  exact ⟨o, _, @Body.Tidy.session o _ _ _ _ hb₃,
    fun id hid => hmono₃ id (hmono₂ id (hmono₁ id hid)), @Body.Tidy.arrays o _ _ _ _ hb₃⟩

end Emit

namespace Assemble

/-- Whatever a function is, there is a ledger after its definition. -/
theorem define_reopens [Opening] {f : Lir.Function} {signature : Signature} {held : List Id}
    {a a' : Assembler}
    (hentry : f.entry? = some entry) (ha : a.Tidy done held) (hid : a.Knows signature.id)
    (h : define f entry signature a = .ok u a') :
    ∃ (o : Opening) (done' : List String), @Tidy o done' [] a' := by
  obtain ⟨o₁, -, -, -, ha₀⟩ := ha.reopen (forall_mem_singleton.2 hid)
  obtain ⟨r, a₁, hprepare, h⟩ := bind_ok.1 h
  obtain ⟨ha₁, hmono₁, hparams, hstart⟩ := @prepare_starts o₁ _ _ [] _ _ _ _ _ ha₀ hid hprepare
  replace h := get_bind_ok.1 h
  obtain ⟨_, a₂, hbody, h⟩ := bind_ok.1 h
  obtain ⟨b, hrun, rfl⟩ := inFunction_ok.1 hbody
  obtain ⟨o₂, owed, hb, hmono, harrays⟩ := Emit.body_reopens hentry hstart hparams hrun
  obtain ⟨_, session, hplace, h⟩ := build_bind_ok h
  have hend : @Build.Safe o₂ _ (Build.place ⟨.functionEnd, none, none, []⟩) [] fun _ => [] :=
    @Build.place_safe o₂ _ _ (nil_subset _) rfl (by simp) fun _ => rfl
  obtain ⟨hs, hmono₃, -⟩ := hend owed hb (forall_mem_nil _) hplace
  cases modify_ok.1 h
  have hlater : ∀ id, a.Knows id → session.Knows id := fun id hin =>
    hmono₃ id (hmono id (hmono₁ id hin))
  have hlater₁ : ∀ id, a₁.Knows id → session.Knows id := fun id hin => hmono₃ id (hmono id hin)
  obtain ⟨o₃, -, -, -, hs₃⟩ := hs.reopen (forall_mem_nil _)
  obtain ⟨-, -, hbuiltins, hcallees, hkeyed, hdone, hkernels, -⟩ := ha₁
  refine ⟨o₃, a₁.callees.keys, nofun, ?_, fun id hin => hlater₁ id (hbuiltins id hin),
    fun e he => hlater₁ _ (hcallees e he), hkeyed, fun name hin => ?_, fun k hk => ?_,
    fun id slot hslot => hmono₃ _ (harrays id slot hslot)⟩
  · rw [except_keys]
    exact hs₃
  · obtain ⟨e, he, rfl⟩ := mem_map.1 hin
    exact Table.get?_isSome_of_mem he
  · split at hk
    · exact forall_mem_append.2 ⟨fun k hk => hlater₁ _ (hkernels k hk),
        forall_mem_singleton.2 (hlater _ hid)⟩ k hk
    · exact hlater₁ _ (hkernels k hk)

end Assemble

/-! ## Histories -/

inductive Assembler.Started : Assembler → Prop
  | header {name : String} {target : Target} {settings : CodegenSettings} {a : Assembler} {u : Unit}
      (hrun : header (new name target settings) = .ok u a) : Started a
  | declare {a a' : Assembler} {f : Lir.Function} {signature : Signature} (h : Started a)
      (hrun : declare f a = .ok signature a') : Started a'
  | define {a a' : Assembler} {f : Lir.Function} {entry : BlockId}
      {signature : Signature} {u : Unit}
      (h : Started a) (hentry : f.entry? = some entry)
      (hc : a.callees.get? f.name = some signature)
      (hrun : define f entry signature a = .ok u a') : Started a'

namespace Assembler

variable {a : Assembler}

theorem Started.tidy (h : a.Started) : ∃ (o : Opening) (done : List String) (held : List Id),
    @Tidy o done held a := by
  induction h with
  | header hrun =>
    obtain ⟨ha, -, -⟩ := header_tidy hrun
    exact ⟨_, _, _, ha⟩
  | declare _ hrun ih =>
    obtain ⟨o, done, held, ha⟩ := ih
    exact ⟨o, done, held, (declare_takes ha hrun).1⟩
  | define _ hentry hc hrun ih =>
    obtain ⟨o, done, held, ha⟩ := ih
    have hid := ha.callees _ (Table.mem_entries_of_get? hc)
    obtain ⟨o', done', ha'⟩ := define_reopens hentry ha hid hrun
    exact ⟨o', done', [], ha'⟩

theorem Started.stage (h : a.Started) : a.stage ≠ .empty := by
  obtain ⟨o, done, held, ha⟩ := h.tidy
  exact ha.started

end Assembler

end KernelForge.Codegen
