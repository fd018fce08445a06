import KernelForge.Binary.Format

/-!
# Operations computed exactly and rounded once

The fused multiply-add and the remainder of two numbers, computed on integers.
-/

namespace KernelForge.Binary

def signedShift (negative : Bool) (m : Nat) (shift : Int) : Int :=
  let magnitude : Int := (m * Nat.pow 2 shift.toNat : Nat)
  if negative then -magnitude else magnitude

/-- Exact sum of two finite numbers. A zero sum is negative only when both terms are. -/
def addFinite (n₁ : Bool) (m₁ : Nat) (p₁ : Int) (n₂ : Bool) (m₂ : Nat) (p₂ : Int) : Number :=
  let p := min p₁ p₂
  let sum := signedShift n₁ m₁ (p₁ - p) + signedShift n₂ m₂ (p₂ - p)
  if sum = 0 then .finite (n₁ && n₂ && m₁ == 0 && m₂ == 0) 0 p
  else .finite (decide (sum < 0)) sum.natAbs p

def Number.infinitePlus (negative : Bool) : Number → Number
  | .infinite n => if n == negative then .infinite negative else .nan
  | .nan => .nan
  | .finite _ _ _ => .infinite negative

/-- `x * y + z` without an intermediate rounding. -/
def Number.mulAdd : Number → Number → Number → Number
  | .nan, _, _ => .nan
  | _, .nan, _ => .nan
  | _, _, .nan => .nan
  | .finite n₁ m₁ p₁, .finite n₂ m₂ p₂, .finite n₃ m₃ p₃ =>
    addFinite (n₁ != n₂) (m₁ * m₂) (p₁ + p₂) n₃ m₃ p₃
  | .finite _ _ _, .finite _ _ _, .infinite n₃ => .infinite n₃
  | .infinite n₁, .finite n₂ m₂ _, z =>
    if m₂ = 0 then .nan else Number.infinitePlus (n₁ != n₂) z
  | .finite n₁ m₁ _, .infinite n₂, z =>
    if m₁ = 0 then .nan else Number.infinitePlus (n₁ != n₂) z
  | .infinite n₁, .infinite n₂, z => Number.infinitePlus (n₁ != n₂) z

/-- The remainder of the quotient truncated toward zero; it has the sign of the first
number. -/
def Number.rem : Number → Number → Number
  | .nan, _ => .nan
  | _, .nan => .nan
  | .infinite _, _ => .nan
  | x, .infinite _ => x
  | .finite n₁ m₁ p₁, .finite _ m₂ p₂ =>
    if m₂ = 0 then .nan
    else
      let p := min p₁ p₂
      .finite n₁ (m₁ * Nat.pow 2 (p₁ - p).toNat % (m₂ * Nat.pow 2 (p₂ - p).toNat)) p

end KernelForge.Binary
