/-!
# Binary interchange formats

The three floating-point formats the device knows (16, 32 and 64 bits), as bit patterns held in
natural numbers. `Format.decode` reads a pattern as an exact number `significand * 2 ^ power`;
`Format.ofRatio` rounds an exact ratio to the nearest pattern, ties to the even significand. All
conversions between formats go through these two, so every rounding is a statement about integers.
There is one not-a-number pattern per format.
-/

namespace KernelForge.Binary

/-- A binary interchange format: the widths of its fraction and exponent fields. -/
structure Format where
  /-- Stored bits of the significand. -/
  fraction : Nat
  /-- Bits of the exponent field. -/
  exponent : Nat
deriving DecidableEq, Repr

def Format.half : Format := ⟨10, 5⟩

def Format.single : Format := ⟨23, 8⟩

def Format.double : Format := ⟨52, 11⟩

/-- What a bit pattern stands for; a finite number is `significand * 2 ^ power`. -/
inductive Number where
  | nan
  | infinite (negative : Bool)
  | finite (negative : Bool) (significand : Nat) (power : Int)
deriving DecidableEq, Repr

namespace Format

/-- Offset of the stored exponent. -/
def bias (f : Format) : Nat := Nat.pow 2 (f.exponent - 1) - 1

/-- Bit pattern of the positive infinity. -/
def infinity (f : Format) : Nat := (Nat.pow 2 f.exponent - 1) * Nat.pow 2 f.fraction

def signBit (f : Format) (negative : Bool) : Nat :=
  if negative then Nat.pow 2 (f.fraction + f.exponent) else 0

/-- The canonical pattern that is not a number. -/
def quietNan (f : Format) : Nat := f.infinity + Nat.pow 2 (f.fraction - 1)

/-- The number a bit pattern stands for. -/
def decode (f : Format) (bits : Nat) : Number :=
  let fraction := bits % Nat.pow 2 f.fraction
  let stored := bits / Nat.pow 2 f.fraction % Nat.pow 2 f.exponent
  let negative := bits / Nat.pow 2 (f.fraction + f.exponent) % 2 == 1
  if stored = Nat.pow 2 f.exponent - 1 then
    if fraction = 0 then .infinite negative else .nan
  else if stored = 0 then
    .finite negative fraction (1 - f.bias - f.fraction)
  else
    .finite negative (Nat.pow 2 f.fraction + fraction) (stored - f.bias - f.fraction)

/-- The quotient nearest to `num / den`, ties to even. -/
def roundDiv (num den : Nat) : Nat :=
  let q := num / den
  let twice := 2 * (num % den)
  if twice < den then q else if den < twice then q + 1 else q + q % 2

/-- The largest `e` with `2 ^ e ≤ num / den`, both positive. -/
def ratioLog2 (num den : Nat) : Int :=
  let e : Int := (Nat.log2 num : Int) - (Nat.log2 den : Int)
  if den * Nat.pow 2 e.toNat ≤ num * Nat.pow 2 (-e).toNat then e else e - 1

/-- The bit pattern nearest to the positive ratio `num / den` with the given sign,
ties to even, infinity beyond the largest finite number. -/
def ofRatio (f : Format) (negative : Bool) (num den : Nat) : Nat :=
  if num = 0 then f.signBit negative
  else
    let least : Int := 1 - f.bias
    let e := max (ratioLog2 num den) least
    let shift : Int := f.fraction - e
    let q := roundDiv (num * Nat.pow 2 shift.toNat) (den * Nat.pow 2 (-shift).toNat)
    let bits := (e + f.bias - 1).toNat * Nat.pow 2 f.fraction + q
    f.signBit negative + (if bits < f.infinity then bits else f.infinity)

/-- The bit pattern nearest to a number. -/
def ofNumber (f : Format) : Number → Nat
  | .nan => f.quietNan
  | .infinite negative => f.signBit negative + f.infinity
  | .finite negative m p => f.ofRatio negative (m * Nat.pow 2 p.toNat) (Nat.pow 2 (-p).toNat)

def isNan (f : Format) (bits : Nat) : Bool :=
  f.decode bits == .nan

end Format

/-- Re-round a pattern of one format in another. -/
def convert (source target : Format) (bits : Nat) : Nat :=
  target.ofNumber (source.decode bits)

/-- A 64-bit pattern in the 16-bit format: first to 32 bits, then to 16, each to nearest even. -/
def doubleToHalf (bits : Nat) : Nat :=
  convert .single .half (convert .double .single bits)

end KernelForge.Binary
