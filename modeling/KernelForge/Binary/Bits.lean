/-!
# Numbers of a width

Words of 64 bits as natural numbers: cutting them down to a width, reading them as signed numbers,
and the way back. Powers are written `Nat.pow` throughout this library, so that they are the same
term whatever is imported.
-/

namespace KernelForge.Binary

/-- The low bits of a word; a width of 64 or more keeps it whole. -/
def mask (value bits : Nat) : Nat :=
  if 64 ≤ bits then value else value % Nat.pow 2 bits

/-- The low bits of a word read as a signed number. -/
def signExtend (value bits : Nat) : Int :=
  let width := min bits 64
  let low := value % Nat.pow 2 width
  if 2 * low < Nat.pow 2 width then low else (low : Int) - Nat.pow 2 width

/-- The 64-bit word of a number, which wraps around. -/
def word64 (n : Int) : Nat := (n % Nat.pow 2 64).toNat

/-- The bytes of a number, low byte first. -/
def bytesLE : Nat → Nat → List UInt8
  | 0, _ => []
  | count + 1, n => UInt8.ofNat n :: bytesLE count (n / 256)

/-- The number of bytes, low byte first. -/
def natLE : List UInt8 → Nat
  | [] => 0
  | b :: rest => b.toNat + 256 * natLE rest

theorem mask_lt {value bits : Nat} (h : bits < 64) : mask value bits < Nat.pow 2 bits := by
  rw [mask, if_neg (by omega)]
  exact Nat.mod_lt _ (Nat.two_pow_pos bits)

theorem length_bytesLE (count n : Nat) : (bytesLE count n).length = count := by
  induction count generalizing n with
  | zero => rfl
  | succ c ih => simp [bytesLE, ih]

theorem natLE_bytesLE (count n : Nat) : natLE (bytesLE count n) = n % Nat.pow 256 count := by
  induction count generalizing n with
  | zero => simp [bytesLE, natLE, Nat.mod_one]
  | succ c ih =>
    have step : Nat.pow 256 (c + 1) = 256 * Nat.pow 256 c := Nat.mul_comm _ _
    rw [bytesLE, natLE, ih, step, Nat.mod_mul]
    simp [UInt8.toNat_ofNat']

end KernelForge.Binary
