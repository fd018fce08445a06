import KernelForge.Proofs.Layout.Owners
import KernelForge.Proofs.Stages

/-!
# One id for each value

Where values live in results, the code of a function is told through one table: the ids that the
definitions recorded. A merge may refer to a value before its definition, by a reserved id; that id
is the one the definition takes, so the merge and all later uses agree (`function_ids`).
-/

namespace KernelForge.Codegen

open Lir (Kind ValueId BlockId)
open Spirv

/-- The id that the definition of a value recorded. -/
def Names.idOf (n : Names) (v : ValueId) : Option Id := n.symbols.values.get? v

/-- Every value has one id, and that is what the code of its function refers to. -/
structure OneIdEach (n : Names) (l : FunctionLayout) : Prop where
  /-- The values with an id are the parameters and the results of operations. -/
  defined : ∀ v, (n.idOf v).isSome ↔ v ∈ n.scope.function.paramVars ∨
    ∃ b ∈ n.scope.function.blocks, v ∈ Lir.defs b.ops
  /-- No value lives in a slot. -/
  direct : ∀ v, n.slot? v = none
  /-- A reference to a value is one to the id of its definition. -/
  referred : ∀ v, n.symbols.resolve? v = n.idOf v
  /-- No id is reserved any longer. -/
  consumed : ∀ v, n.symbols.reserved.get? v = none
  /-- A merge refers to its values by their ids, its own id apart. -/
  merged : ∀ b lb, (b, lb) ∈ n.scope.function.blocks.zip l.blocks →
    ∀ m i, (m, i) ∈ (leadingMerges b.ops).zip lb.merges → i.result = n.idOf m.1 ∧
      ∀ (p : Nat) source v, m.2[p]? = some (source, .var v) →
        n.idOf v = n.idOf m.1 ∨ ∃ id, n.idOf v = some id ∧ i.operands[2 * p]? = some (.ref id)

variable {n : Names}

theorem MergesCode.of_zip {ms : List Merge} {is stores : List Instruction}
    (h : MergesCode n ms is stores) {e : Merge × Instruction} (he : e ∈ ms.zip is) :
    MergeCode n e.1 e.2 := by
  induction h with
  | nil => cases he
  | cons hi _ _ ih =>
    rcases List.mem_cons.1 he with rfl | he
    · exact hi
    · exact ih he

/-- Where the value of an edge stands among the operands of its merge. -/
theorem mergePairs_operand {k : Kind} {incoming : List (BlockId × Lir.Operand)}
    {pairs : List (Id × Id)} (h : incoming.mapM (n.mergePair k) = some pairs) (g : Id → Id)
    {p : Nat}
    {e : BlockId × Lir.Operand} (he : incoming[p]? = some e) :
    ∃ id, n.mergeId k e.2 = some id ∧
      (pairs.flatMap fun q => [Operand.ref (g q.1), .ref q.2])[2 * p]? = some (.ref (g id)) := by
  induction incoming generalizing pairs p with
  | nil => cases he
  | cons first incoming ih =>
    rw [List.mapM_cons] at h
    obtain ⟨q, hq, h⟩ := Option.bind_eq_some_iff.1 h
    obtain ⟨rest, hrest, h⟩ := Option.bind_eq_some_iff.1 h
    cases h
    cases p with
    | zero =>
      cases he
      exact ⟨q.1, (Names.mergePair_iff.1 hq).1, rfl⟩
    | succ => exact ih hrest he

theorem MergeCode.operand {m : Merge} {i : Instruction} (h : MergeCode n m i) {p : Nat}
    {source : BlockId} {v : ValueId} (he : m.2[p]? = some (source, .var v)) :
    n.symbols.resolve? v = n.symbols.resolve? m.1 ∨
      ∃ id, n.symbols.resolve? v = some id ∧ i.operands[2 * p]? = some (.ref id) := by
  cases h with
  | @intro k type own pairs operands hv hk ht hp ho =>
    obtain ⟨other, -, rfl⟩ := Option.map_eq_some_iff.1 ho
    obtain ⟨id, hid, hat⟩ := mergePairs_operand hp (fun id => if id = own then other.1 else id) he
    by_cases hown : id = own
    · exact .inl (by rw [hv, ← hown]; exact hid)
    · rw [if_neg hown] at hat
      exact .inr ⟨id, hid, hat⟩

/-- The code of a function whose values live in results. -/
theorem FunctionCode.oneIdEach {id : Id} {l : FunctionLayout} {e : Function}
    (h : FunctionCode n id l e) (hmode : n.scope.settings.optimizeLoadStore = true) :
    OneIdEach n l := by
  obtain ⟨entry, slots, -, -, hbody⟩ := h.code
  have hreferred : ∀ v, n.symbols.resolve? v = n.idOf v := fun v => by
    rw [Symbols.resolve?, hbody.settled v, Option.none_or, Names.idOf]
  refine ⟨fun v => ?_, fun v => by rw [Names.slot?, if_pos hmode], hreferred, hbody.settled, ?_⟩
  · obtain ⟨defined, htold, hdefined⟩ := hbody.told
    exact (htold.values v).trans (hdefined v)
  · intro b lb hlb m i hi
    have hcode := (hbody.blocks.of_mem hlb).merges.of_zip hi
    refine ⟨?_, fun p source v hp => ?_⟩
    · rw [← hreferred]
      cases hcode with
      | intro hv => exact hv.symm
    · rw [← hreferred, ← hreferred]
      exact hcode.operand hp

namespace Assemble

variable {f : Lir.Function} {a a' : Assembler} {u : Unit}

/-- A function is assembled behind a header, its own or an earlier one. -/
theorem function_behind_header (h : function f a = .ok u a') :
    ∃ a₁, a₁.settings = a.settings ∧ a₁.stage ≠ .empty ∧ function f a₁ = .ok u a' := by
  by_cases ha : a.stage = .empty
  · obtain ⟨_, _, hname, hrest⟩ := bind_ok.1 h
    obtain ⟨hchecked, rfl⟩ := ofExcept_ok.1 hname
    replace hrest := get_bind_ok.1 hrest
    rw [if_pos ha] at hrest
    obtain ⟨_, a₁, hheader, -⟩ := bind_ok.1 hrest
    obtain ⟨hsame, hstage, hsettings⟩ := function_headed ha hchecked hheader
    exact ⟨a₁, hsettings, hstage, hsame ▸ h⟩
  · exact ⟨a, rfl, ha, h⟩

/-- **function_ids**: where values live in results, a function in which no value is defined twice
becomes code in which every value has one id, the one its definition recorded. -/
theorem function_ids (hmode : a.settings.optimizeLoadStore = true)
    (hssa : (f.paramVars ++ f.blocks.flatMap fun b => Lir.defs b.ops).Nodup)
    (h : function f a = .ok u a') :
    ∃ scope id l e, scope.function = f ∧
      a'.session.draft.module.functions.getLast? = some e ∧
      FunctionCode ⟨scope, a'.session, a'.symbols⟩ id l e ∧
      OneIdEach ⟨scope, a'.session, a'.symbols⟩ l := by
  obtain ⟨a₁, hsettings, hheaded, h⟩ := function_behind_header h
  obtain ⟨entry, signature, a₂, hentry, hdeclare, hdefine⟩ := function_ok hheaded h
  obtain ⟨target, l, e, he, hcode⟩ := define_lays hentry hssa hdefine
  have hmode₂ : a₂.settings.optimizeLoadStore = true := by
    rcases declare_cases hdeclare with ⟨-, rfl⟩ | ⟨-, -, rfl⟩ <;> rw [← hmode, ← hsettings]
  exact ⟨_, _, l, e, rfl, by rw [he]; simp, hcode, hcode.oneIdEach hmode₂⟩

/-- A kernel with two merges that both name a value defined after them, and one that also names
itself. -/
def climbing : Lir.Function :=
  ⟨"climb", .kernel, [⟨⟨0⟩, .i32, none⟩], .void, [⟨⟨1⟩, .i32⟩, ⟨⟨2⟩, .i32⟩, ⟨⟨3⟩, .i32⟩], [],
    [⟨⟨0⟩, [], .jump ⟨1⟩⟩,
     ⟨⟨1⟩,
       [.phi ⟨1⟩ [(⟨0⟩, .var ⟨0⟩), (⟨1⟩, .var ⟨3⟩)], .phi ⟨2⟩ [(⟨0⟩, .var ⟨3⟩), (⟨1⟩, .var ⟨2⟩)],
        .binary ⟨3⟩ .add (.var ⟨1⟩) (.var ⟨2⟩)], .branch (.var ⟨3⟩) ⟨1⟩ ⟨2⟩ none⟩,
     ⟨⟨2⟩, [], .ret none⟩]⟩

theorem function_ids_climbing :
    ∃ u a', function climbing (Assembler.new "m" {} {}) = .ok u a' ∧
      ∃ scope id l e, scope.function = climbing ∧
        a'.session.draft.module.functions.getLast? = some e ∧
        FunctionCode ⟨scope, a'.session, a'.symbols⟩ id l e ∧
        OneIdEach ⟨scope, a'.session, a'.symbols⟩ l := by
  have hok : (function climbing (Assembler.new "m" {} {}) matches .ok _ _) = true := by
    decide +kernel
  cases hrun : function climbing (Assembler.new "m" {} {}) with
  | error =>
    rw [hrun] at hok
    cases hok
  | ok u a' => exact ⟨u, a', rfl, function_ids rfl (by decide) hrun⟩

end Assemble

end KernelForge.Codegen
