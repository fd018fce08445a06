import KernelForge.Codegen.Recipe

/-!
# Vectors lane by lane

Vectors are built by inserting one lane after another into an undefined vector.
-/

namespace KernelForge.Codegen

open Lir (Kind ValueId)

namespace Select

def vectorKind (dst : ValueId) : Select Kind := do
  let k ← kindOf dst
  if k.isVector then return k else fail (.unsupportedKind (.notVector k))

/-- Fail for a lane a kind does not have. -/
def checkLane (k : Kind) (lane : UInt32) : Select Unit :=
  if k.lanes ≤ lane.toNat then fail (.unimplemented (.lane lane.toNat k)) else pure ()

def laneValue (o : Lir.Operand) (lane : Kind) : Select Temp := do
  match o with
  | .const l => constant l.value lane
  | .var v =>
    let actual ← kindOf v
    let value ← operand o
    convertSigned value actual lane

/-- Insert lanes from a position on; the last insertion defines the destination. -/
def insertLanes (dst : ValueId) (type : Temp) (lane : Kind) :
    Nat → Temp → List Lir.Operand → Select Unit
  | _, object, [] => forward dst object
  | i, object, [last] => do
    let value ← laneValue last lane
    defineAs dst .compositeInsert type [.value value, .value object, .literal i]
  | i, object, element :: rest => do
    let value ← laneValue element lane
    let object ← instr .compositeInsert type [.value value, .value object, .literal i]
    insertLanes dst type lane (i + 1) object rest

def vectorBuild (dst : ValueId) (elements : List Lir.Operand) : Select Unit := do
  let k ← vectorKind dst
  if elements.length ≠ k.lanes then fail (.unimplemented (.built k elements.length))
  else
    let type ← typeOf k
    let object ← instr .undef type []
    insertLanes dst type k.element 0 object elements

/-- A lane of a vector, converted to the destination's kind. -/
def vectorExtract (dst : ValueId) (vector : Lir.Operand) (lane : UInt32) : Select Unit := do
  let k ← operandKind vector
  checkLane k lane
  let dstKind ← kindOf dst
  let source ← operand vector
  let laneType ← typeOf k.element
  let args : List Arg := [.value source, .literal lane.toNat]
  let _ ← typeOf dstKind
  if typeKind dstKind = typeKind k.element then defineAs dst .compositeExtract laneType args
  else
    let extracted ← instr .compositeExtract laneType args
    forward dst (← convertSigned extracted k.element dstKind)

def vectorInsert (dst : ValueId) (vector : Lir.Operand) (lane : UInt32) (value : Lir.Operand) :
    Select Unit := do
  let k ← vectorKind dst
  checkLane k lane
  let source ← operandAs vector k
  let element ← laneValue value k.element
  defineAs dst .compositeInsert (← typeOf k) [.value element, .value source, .literal lane.toNat]

end Select

end KernelForge.Codegen
