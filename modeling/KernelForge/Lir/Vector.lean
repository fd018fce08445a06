import KernelForge.Error

/-!
# Vector kinds with their errors

Building vector kinds where a device has to be able to declare them.
-/

namespace KernelForge.Lir

namespace Kind

/-- A vector kind a device can declare. -/
def vectorOf (element : Element) (lanes : UInt8) : Except Error Kind :=
  match vector? element lanes with
  | some k => .ok k
  | none => .error (.unsupportedKind (.lanes element lanes.toNat))

/-- The lane type a kind becomes in a vector. -/
def laneOf (k : Kind) : Except Error Element :=
  match k.asElement? with
  | some e => .ok e
  | none => .error (.unsupportedKind (.lane k))

/-- The same shape with another lane kind. -/
def withElement (k element : Kind) : Except Error Kind :=
  match k with
  | .vector _ lanes => do vectorOf (← element.laneOf) lanes
  | _ => .ok element

end Kind

end KernelForge.Lir
