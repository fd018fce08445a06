import KernelForge.Codegen.Emit
import KernelForge.Codegen.Selection

/-!
# Blocks

Merges at the head of a block, the operations of its body, and its terminator. A merge has one
value for each predecessor; a value that is not defined yet gets a reserved id. A merge that names
itself takes the value of its other edges.
-/

namespace KernelForge.Codegen

open Lir (Kind ValueId BlockId Terminator)
open Spirv (Id Opcode)

/-! ## Merges -/

/-- Blocks that lead to a block, in order. -/
def predecessors (f : Lir.Function) (block : BlockId) : List BlockId :=
  (f.blocks.filter fun b => b.terminator.successors.contains block).map Lir.Block.id

/-- Check the blocks a merge names, given those before. -/
def checkSources (merge : BlockId) (preds : List BlockId) :
    List BlockId → List BlockId → Except MergeFault Unit
  | _, [] => .ok ()
  | seen, block :: rest =>
    if block ∉ preds then .error (.notPredecessor block merge)
    else if block ∈ seen then .error (.twice block)
    else checkSources merge preds (block :: seen) rest

/-- A merge has one value for each predecessor and nothing else. -/
def checkMerge (merge : BlockId) (preds sources : List BlockId) : Except MergeFault Unit := do
  checkSources merge preds [] sources
  if sources.length ≠ preds.length then throw (.count sources.length preds.length merge)

abbrev Merge := ValueId × List (BlockId × Lir.Operand)

def leadingMerges : List Lir.Op → List Merge
  | .phi dst incoming :: rest => (dst, incoming) :: leadingMerges rest
  | _ => []

namespace Emit

/-- The id of a value that reaches a merge; `merged` are the merges of the block. -/
def mergeValue (merged : List (ValueId × Id)) (predCount : Nat) (dst : ValueId) (k : Kind) :
    Lir.Operand → Emit Id
  | .const l => constant l.value k
  | .var v => do
    match merged.find? fun e => e.1 == v with
    | some e => return e.2
    | none =>
      match (← get).symbols.resolve? v with
      | some id => return id
      | none =>
        if predCount ≤ 2 then modifyGet fun b => b.reserve v
        else fail (.undefinedValue (.reachesMerge v dst))

def mergePairs (merged : List (ValueId × Id)) (predCount : Nat) (dst : ValueId) (k : Kind)
    (incoming : List (BlockId × Lir.Operand)) : Emit (List (Id × Id)) :=
  incoming.mapM fun (block, o) => do
    let value ← mergeValue merged predCount dst k o
    return (value, ← label block)

/-- Operands of a merge: its own id is replaced by the first other value. -/
def mergeOperands (result : Id) (pairs : List (Id × Id)) : Option (List Spirv.Operand) :=
  (pairs.find? fun p => p.1 != result).map fun other =>
    pairs.flatMap fun p => [.ref (if p.1 = result then other.1 else p.1), .ref p.2]

def merge (merged : List (ValueId × Id)) (predCount : Nat) (m : Merge) (result : Id) :
    Emit Unit := do
  let k ← kindOf m.1
  let type ← typeOf k
  let pairs ← mergePairs merged predCount m.1 k m.2
  match mergeOperands result pairs with
  | none => fail (.mergeCycle m.1)
  | some operands => build (Build.emitAs .phi type result operands)

/-- Fail for a merge that does not have one value for each predecessor. -/
def checkIncoming (block : BlockId) (preds : List BlockId) (m : Merge) : Emit Unit :=
  match checkMerge block preds (m.2.map Prod.fst) with
  | .error fault => fail (.malformedMerge m.1 fault)
  | .ok () => return ()

/-- The merges of a block; all are emitted before any is defined. -/
def merges (block : Lir.Block) : Emit Unit := do
  let ms := leadingMerges block.ops
  let preds := predecessors (← read).function block.id
  ms.forM (checkIncoming block.id preds)
  let results ← ms.mapM fun m => resultFor m.1
  let merged := (ms.map Prod.fst).zip results
  (ms.zip results).forM fun (m, result) => merge merged preds.length m result
  merged.forM fun (dst, result) => define dst result

def op (o : Lir.Op) : Emit Unit := do
  let _ ← recipe [] (Select.op o)

/-! ## Terminators -/

/-- End the open block. -/
def terminate (opcode : Opcode) (operands : List Spirv.Operand) : Emit Unit :=
  build (Build.place ⟨opcode, none, none, operands⟩)

def selected (selection : Select Temp) : Emit Id := do
  let (t, ids) ← recipe [] selection
  temp ids t

/-- The annotation of a loop header. -/
def loopHint : Option Lir.LoopHint → Emit Unit
  | none => return ()
  | some hint => do
    let mergeLabel ← label hint.merge
    let continueLabel ← label hint.continueTarget
    build (Build.emitVoid .loopMerge [.ref mergeLabel, .ref continueLabel,
      .enumerant .loopControl (if hint.unroll then 1 else 0)])

/-- The number of a switch case, as wide as the selector's kind demands. -/
def caseNumber (wide : Bool) (case : Int64) : Spirv.Operand :=
  if wide then .long case.toUInt64.toNat else .literal (case.toUInt64.toNat % Nat.pow 2 32)

def switchCase (wide : Bool) (case : Int64 × BlockId) : Emit (List Spirv.Operand) := do
  return [caseNumber wide case.1, .ref (← label case.2)]

def terminator : Terminator → Emit Unit
  | .jump target => do terminate .branch [.ref (← label target)]
  | .branch cond onTrue onFalse hint => do
    let cond ← selected (Select.condition cond)
    let t ← label onTrue
    let f ← label onFalse
    loopHint hint
    terminate .branchConditional [.ref cond, .ref t, .ref f]
  | .switch selector cases default => do
    let ((t, k), ids) ← recipe [] (Select.selector selector)
    let value ← temp ids t
    let default ← label default
    let targets ← cases.mapM (switchCase (k.size == 8))
    terminate .switch (.ref value :: .ref default :: targets.flatten)
  | .ret none => do
    match (← read).returnBlock with
    | some target => terminate .branch [.ref target]
    | none => terminate .returnVoid []
  | .ret (some value) => do
    let f := (← read).function
    if f.isKernel then fail (.unimplemented (.kernelValue f.name))
    else terminate .returnValue [.ref (← selected (Select.operandAs value f.returnKind))]
  | .unreachable => terminate .unreachable []

end Emit

end KernelForge.Codegen
