import KernelForge.Text.Numeral

/-!
# Hexadecimal text

Numbers and byte strings in lowercase hexadecimal.
-/

namespace KernelForge.Text

/-- Hexadecimal digits of `n`, without leading zeros. -/
def hexText (n : Nat) : String :=
  String.ofList (Nat.toDigits 16 n)

/-- The low `count` hexadecimal digits of `n`, leading zeros included. -/
def hexPadded : Nat → Nat → List Char
  | 0, _ => []
  | count + 1, n => hexPadded count (n / 16) ++ [Nat.digitChar (n % 16)]

/-- An address: `0x` and the hexadecimal digits. -/
def addressText (n : Nat) : String :=
  "0x" ++ hexText n

/-- Two digits for each byte. -/
def bytesHex (bytes : List UInt8) : String :=
  String.ofList (bytes.flatMap fun b => hexPadded 2 b.toNat)

/-- Read two digits for each byte. -/
def hexBytes? : List Char → Option (List UInt8)
  | [] => some []
  | [_] => none
  | a :: b :: rest => do
    let high ← digitBelow 16 a
    let low ← digitBelow 16 b
    let tail ← hexBytes? rest
    return UInt8.ofNat (high * 16 + low) :: tail

end KernelForge.Text
