import KernelForge.Proofs.Layout.Selection
import KernelForge.Proofs.Ledger.Operations

/-!
# What a block becomes

Merges, the stores of merged variables in spill mode, the recipes of its operations and its end:
`BlockCode n b e` tells the instructions `e` of a block `b` under the names `n` at the end of the
module. A block keeps its code under later names (`BlockCode.later`).

Nothing is said of how the code is emitted; `Layout.MergeCode` and `Layout.Block` show that emission
keeps to it.
-/

namespace KernelForge.Codegen

open List Body Build Select Symbols Symbols.Sees Table
open Lir (Kind BlockId Terminator)
open Spirv

variable {k : Kind} {α : Type} {ms : List Merge} {i : Instruction} {ids given results : List Id}
  {hint : Option Lir.LoopHint} {os : List Lir.Op} {o : Lir.Operand} {wide : Bool} {m : Merge}

namespace Names

/-- What selection sees. -/
def view (n : Names) : View := Emit.view n.scope n.symbols

/-- The id of a value that reaches a merge of a kind. -/
def mergeId (n : Names) (k : Kind) : Lir.Operand → Option Id
  | .const l => n.session.constants.get? (l.value, k)
  | .var v => n.symbols.resolve? v

/-- Value and label of one edge of a merge. -/
def mergePair (n : Names) (k : Kind) (e : BlockId × Lir.Operand) : Option (Id × Id) := do
  return (← n.mergeId k e.2, ← n.symbols.labels.get? e.1)

variable {n n' : Names}

theorem Sees.view (h : n.Sees n') : n'.view = n.view := by
  simp only [Names.view, Emit.view, h.scope, h.symbols.arrays]

theorem Sees.mergeId (h : n.Sees n') {id : Id}
    (ho : n.mergeId k o = some id) : n'.mergeId k o = some id := by
  cases o with
  | const => exact h.session.constants _ _ ho
  | var => exact h.symbols.values _ _ ho

variable {e : BlockId × Lir.Operand} {p : Id × Id}

theorem mergePair_iff :
    n.mergePair k e = some p ↔
      n.mergeId k e.2 = some p.1 ∧ n.symbols.labels.get? e.1 = some p.2 := by
  unfold mergePair
  cases n.mergeId k e.2 <;> cases n.symbols.labels.get? e.1 <;> simp [Prod.ext_iff]

theorem Sees.mergePair (h : n.Sees n') (he : n.mergePair k e = some p) :
    n'.mergePair k e = some p := by
  obtain ⟨hv, hl⟩ := mergePair_iff.1 he
  exact mergePair_iff.2 ⟨h.mergeId hv, h.symbols.labels _ _ hl⟩

end Names

/-- The instruction of a merge; its own id gives way to the first other value. -/
inductive MergeCode (n : Names) (m : Merge) : Instruction → Prop
  | intro {k : Kind} {type result : Id} {pairs : List (Id × Id)} {operands : List Operand}
      (hv : n.symbols.resolve? m.1 = some result) (hk : n.scope.function.kindOf? m.1 = some k)
      (ht : n.session.types.get? k = some type) (hp : m.2.mapM (n.mergePair k) = some pairs)
      (ho : Emit.mergeOperands result pairs = some operands) :
      MergeCode n m ⟨.phi, some type, some result, operands⟩

/-- The merges of a block, and the stores that follow them in spill mode. -/
inductive MergesCode (n : Names) : List Merge → List Instruction → List Instruction → Prop
  | nil : MergesCode n [] [] []
  | cons {m : Merge} {ms : List Merge} {i : Instruction} {is stores : List Instruction} {id : Id}
      (hi : MergeCode n m i) (hr : i.result = some id) (hs : MergesCode n ms is stores) :
      MergesCode n (m :: ms) (i :: is) (n.stored m.1 id ++ stores)

inductive SelectionCode {α : Type} (n : Names) (given : List Id) (selection : Select α) :
    List Instruction → α → List Id → Prop
  | intro {a : α} {r : Recipe} {c : List Instruction} {ids : List Id}
      (hr : selection n.view ⟨[], given.length⟩ = .ok a r)
      (hl : LinesCode n given r.lines c ids) : SelectionCode n given selection c a ids

/-- The instructions of each operation of a block. -/
inductive OpsCode (n : Names) : List Lir.Op → List (List Instruction) → Prop
  | nil : OpsCode n [] []
  | cons {o : Lir.Op} {os : List Lir.Op} {c : List Instruction} {cs : List (List Instruction)}
      {u : Unit} {ids : List Id} (ho : SelectionCode n [] (op o) c u ids)
      (hs : OpsCode n os cs) : OpsCode n (o :: os) (c :: cs)

/-- The annotation of a loop header. -/
inductive HintCode (n : Names) : Option Lir.LoopHint → List Instruction → Prop
  | none : HintCode n none []
  | some {hint : Lir.LoopHint} {m c : Id} (hm : n.symbols.labels.get? hint.merge = some m)
      (hc : n.symbols.labels.get? hint.continueTarget = some c) :
      HintCode n (some hint) [⟨.loopMerge, none, none,
        [.ref m, .ref c, .enumerant .loopControl (if hint.unroll then 1 else 0)]⟩]

/-- Number and label of a case of a switch. -/
def Names.caseOperands (n : Names) (wide : Bool) (case : Int64 × BlockId) : Option (List Operand) :=
  (n.symbols.labels.get? case.2).map fun id => [Emit.caseNumber wide case.1, .ref id]

/-- The end of a block: instructions and the last one. -/
inductive EndCode (n : Names) : Terminator → List Instruction → Instruction → Prop
  | jump {target : BlockId} {id : Id} (h : n.symbols.labels.get? target = some id) :
      EndCode n (.jump target) [] ⟨.branch, none, none, [.ref id]⟩
  | branch {o : Lir.Operand} {onTrue onFalse : BlockId} {hint : Option Lir.LoopHint}
      {c h : List Instruction} {t : Temp} {ids : List Id} {cond tl fl : Id}
      (hc : SelectionCode n [] (condition o) c t ids) (hi : ids[t]? = some cond)
      (ht : n.symbols.labels.get? onTrue = some tl) (hf : n.symbols.labels.get? onFalse = some fl)
      (hh : HintCode n hint h) :
      EndCode n (.branch o onTrue onFalse hint) (c ++ h)
        ⟨.branchConditional, none, none, [.ref cond, .ref tl, .ref fl]⟩
  | switch {o : Lir.Operand} {cases : List (Int64 × BlockId)} {default : BlockId}
      {c : List Instruction} {t : Temp} {k : Kind} {ids : List Id} {value dl : Id}
      {targets : List (List Operand)}
      (hc : SelectionCode n [] (selector o) c (t, k) ids) (hi : ids[t]? = some value)
      (hd : n.symbols.labels.get? default = some dl)
      (hs : cases.mapM (n.caseOperands (k.size == 8)) = some targets) :
      EndCode n (.switch o cases default) c
        ⟨.switch, none, none, .ref value :: .ref dl :: targets.flatten⟩
  | leave {target : Id} (h : n.scope.returnBlock = some target) :
      EndCode n (.ret none) [] ⟨.branch, none, none, [.ref target]⟩
  | retVoid (h : n.scope.returnBlock = none) :
      EndCode n (.ret none) [] ⟨.returnVoid, none, none, []⟩
  | ret {o : Lir.Operand} {c : List Instruction} {t : Temp} {ids : List Id} {id : Id}
      (hk : n.scope.function.isKernel = false)
      (hc : SelectionCode n [] (operandAs o n.scope.function.returnKind) c t ids)
      (hi : ids[t]? = some id) :
      EndCode n (.ret (some o)) c ⟨.returnValue, none, none, [.ref id]⟩
  | unreachable : EndCode n .unreachable [] ⟨.unreachable, none, none, []⟩

/-- The parts of the instructions of a block. -/
structure BlockLayout where
  label : Id
  merges : List Instruction
  /-- The stores of merged variables, in spill mode. -/
  stores : List Instruction
  /-- The instructions of each operation. -/
  ops : List (List Instruction)
  ending : List Instruction
  last : Instruction

namespace BlockLayout

/-- The instructions after the merges. -/
def tail (l : BlockLayout) : List Instruction := l.stores ++ l.ops.flatten ++ l.ending ++ [l.last]

def block (l : BlockLayout) : Block := ⟨⟨.label, none, some l.label, []⟩, l.merges ++ l.tail⟩

end BlockLayout

/-- What a block becomes. -/
structure BlockCode (n : Names) (b : Lir.Block) (l : BlockLayout) : Prop where
  label : n.symbols.labels.get? b.id = some l.label
  checked : ∀ m ∈ leadingMerges b.ops, checkMerge b.id (predecessors n.scope.function b.id)
    (m.2.map Prod.fst) = .ok ()
  merges : MergesCode n (leadingMerges b.ops) l.merges l.stores
  ops : OpsCode n (b.ops.drop (leadingMerges b.ops).length) l.ops
  ending : EndCode n b.terminator l.ending l.last

section Later

variable {n n' : Names} (h : n.Sees n')

include h

theorem MergeCode.later (hm : MergeCode n m i) : MergeCode n' m i := by
  cases hm with
  | intro hv hk ht hp ho =>
    exact .intro (h.symbols.values _ _ hv) (by rw [h.scope, hk]) (h.session.types _ _ ht)
      (mapM_some_of (fun _ _ he => h.mergePair he) hp) ho

theorem MergesCode.later {is stores : List Instruction}
    (hm : MergesCode n ms is stores) : MergesCode n' ms is stores := by
  induction hm with
  | nil => exact .nil
  | cons hi hr _ ih =>
    rw [← h.stored]
    exact .cons (hi.later h) hr ih

variable {c : List Instruction}

theorem SelectionCode.later {selection : Select α} {a : α}
    (hs : SelectionCode n given selection c a ids) : SelectionCode n' given selection c a ids := by
  cases hs with
  | intro hr hl => exact .intro (by rw [h.view, hr]) (hl.later h)

theorem OpsCode.later {cs : List (List Instruction)} (ho : OpsCode n os cs) : OpsCode n' os cs := by
  induction ho with
  | nil => exact .nil
  | cons ho _ ih => exact .cons (ho.later h) ih

theorem HintCode.later (hh : HintCode n hint c) : HintCode n' hint c := by
  cases hh with
  | none => exact .none
  | some hm hc => exact .some (h.symbols.labels _ _ hm) (h.symbols.labels _ _ hc)

theorem Names.Sees.caseOperands {case : Int64 × BlockId} {os : List Operand}
    (hc : n.caseOperands wide case = some os) : n'.caseOperands wide case = some os := by
  obtain ⟨id, hid, rfl⟩ := Option.map_eq_some_iff.1 hc
  exact Option.map_eq_some_iff.2 ⟨id, h.symbols.labels _ _ hid, rfl⟩

theorem EndCode.later {t : Terminator} (he : EndCode n t c i) : EndCode n' t c i := by
  cases he with
  | jump hl => exact .jump (h.symbols.labels _ _ hl)
  | branch hc hi ht hf hh =>
    exact .branch (hc.later h) hi (h.symbols.labels _ _ ht) (h.symbols.labels _ _ hf) (hh.later h)
  | switch hc hi hd hs =>
    exact .switch (hc.later h) hi (h.symbols.labels _ _ hd)
      (mapM_some_of (fun _ _ hc => h.caseOperands hc) hs)
  | leave ht => exact .leave (by rw [h.scope, ht])
  | retVoid ht => exact .retVoid (by rw [h.scope, ht])
  | ret hk hc hi => exact .ret (by rw [h.scope, hk]) (by rw [h.scope]; exact hc.later h) hi
  | unreachable => exact .unreachable

theorem BlockCode.later {b : Lir.Block} {l : BlockLayout} (hb : BlockCode n b l) :
    BlockCode n' b l where
  label := h.symbols.labels _ _ hb.label
  checked := by
    rw [h.scope]
    exact hb.checked
  merges := hb.merges.later h
  ops := hb.ops.later h
  ending := hb.ending.later h

end Later

end KernelForge.Codegen
