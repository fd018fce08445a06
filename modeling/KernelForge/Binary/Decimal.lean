import KernelForge.Binary.Format
import KernelForge.Text.Numeral

/-!
# Reading decimal text as a bit pattern

A decimal text is an optional sign, then `inf`, `infinity` or `nan` in any case, or digits with an
optional point and an optional exponent, at least one digit standing before the exponent. The
reading is the nearest bit pattern of the wanted format, in one rounding of the exact value.
-/

namespace KernelForge.Binary

/-- A decimal numeral `digits * 10 ^ exponent`. -/
structure Decimal where
  digits : Nat
  exponent : Int
deriving DecidableEq, Repr

/-- Longest run of decimal digits in front, and what follows it. -/
def spanDigits (cs : List Char) : List Char × List Char :=
  (cs.takeWhile Char.isDigit, cs.dropWhile Char.isDigit)

/-- An exponent after its mark: optional sign and a nonempty run of digits. -/
def exponent? (cs : List Char) : Option Int :=
  match cs with
  | '-' :: rest => (Text.digits? 10 rest).map fun n => -(n : Int)
  | '+' :: rest => (Text.digits? 10 rest).map Int.ofNat
  | rest => (Text.digits? 10 rest).map Int.ofNat

/-- An unsigned decimal numeral. -/
def decimal? (cs : List Char) : Option Decimal := do
  let (whole, rest) := spanDigits cs
  let (part, rest) :=
    match rest with
    | '.' :: more => spanDigits more
    | more => ([], more)
  let digits ← Text.digits? 10 (whole ++ part)
  let exponent ←
    match rest with
    | [] => some 0
    | c :: more => if c = 'e' ∨ c = 'E' then exponent? more else none
  return ⟨digits, exponent - part.length⟩

/-- Texts of the numbers that are not finite, in lowercase. -/
def special? (cs : List Char) : Option (Bool → Number) :=
  let word := String.ofList (cs.map Char.toLower)
  if word = "inf" ∨ word = "infinity" then some .infinite
  else if word = "nan" then some fun _ => .nan
  else none

/-- Decimal magnitudes beyond this bound decide the result by themselves in every format. -/
def magnitudeBound : Int := 400

/-- The pattern nearest to a decimal numeral. -/
def Format.ofDecimal (f : Format) (negative : Bool) (d : Decimal) : Nat :=
  let magnitude : Int := (Nat.toDigits 10 d.digits).length + d.exponent
  if d.digits = 0 then f.signBit negative
  else if magnitudeBound < magnitude then f.signBit negative + f.infinity
  else if magnitude < -magnitudeBound then f.signBit negative
  else f.ofRatio negative (d.digits * Nat.pow 10 d.exponent.toNat) (Nat.pow 10 (-d.exponent).toNat)

/-- An unsigned text of a number. -/
def Format.unsigned? (f : Format) (negative : Bool) (cs : List Char) : Option Nat :=
  match special? cs with
  | some number => some (f.ofNumber (number negative))
  | none => (decimal? cs).map (f.ofDecimal negative)

/-- The bit pattern a decimal text stands for. -/
def Format.read? (f : Format) (text : String) : Option Nat :=
  match text.toList with
  | '-' :: cs => f.unsigned? true cs
  | '+' :: cs => f.unsigned? false cs
  | cs => f.unsigned? false cs

end KernelForge.Binary
