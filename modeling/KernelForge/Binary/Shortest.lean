import KernelForge.Binary.Format
import KernelForge.Text.Numeral

/-!
# The fewest digits that read back

The shortest decimal that rounds to a given bit pattern, and of several the nearest to its value.
The numbers that round to a pattern form an interval around its value, closed when the significand
is even; for one digit, two digits and so on, the two neighbours of the value on that decimal grid
are tested against the interval.

The two layouts of the digits, `Layout.plain` and `Layout.general`, are records.
-/

namespace KernelForge.Binary

/-- A decimal in scientific form: `0.digits * 10 ^ point`, the first digit nonzero. -/
structure Digits where
  digits : List Char
  point : Int
deriving DecidableEq, Repr

/-- The ends of the interval that rounds to `m * 2 ^ p` and the value between them, in quarters of
a unit in the last place. The lower gap halves at a power of two. -/
def quarterBounds (f : Format) (m : Nat) (p : Int) : Nat × Nat × Nat :=
  let least : Int := 1 - f.bias - f.fraction
  let low := if m = Nat.pow 2 f.fraction ∧ least < p then 4 * m - 1 else 4 * m - 2
  (low, 4 * m, 4 * m + 2)

/-- The least `k` with `num / den < 10 ^ k`, searched from an underestimate. -/
def decimalPoint (num den : Nat) : Nat → Int → Int
  | 0, k => k
  | fuel + 1, k =>
    if num * Nat.pow 10 (-k).toNat < den * Nat.pow 10 k.toNat then k
    else decimalPoint num den fuel (k + 1)

/-- The decimal with `count` digits nearest to the value that lies in the interval, if there is
one. All arguments are scaled: the value is `value / den`. -/
def onGrid (closed : Bool) (low value high den : Nat) (point : Int) (count : Nat) : Option Nat :=
  let unit : Int := point - count
  let up := Nat.pow 10 (-unit).toNat
  let down := den * Nat.pow 10 unit.toNat
  let inside := fun (n : Nat) =>
    let x := n * down
    if closed then low * up ≤ x ∧ x ≤ high * up else low * up < x ∧ x < high * up
  let below := value * up / down
  let rest := value * up % down
  if inside below then
    if inside (below + 1) ∧ down ≤ 2 * rest then some (below + 1) else some below
  else if inside (below + 1) then some (below + 1)
  else none

/-- The first grid with a hit, from `count` digits on: the decimal and its number of digits. -/
def firstGrid (closed : Bool) (low value high den : Nat) (point : Int) : Nat → Nat → Nat × Nat
  | 0, count => ((onGrid closed low value high den point count).getD 0, count)
  | fuel + 1, count =>
    match onGrid closed low value high den point count with
    | some n => (n, count)
    | none => firstGrid closed low value high den point fuel (count + 1)

/-- Drop the zeros at the end of a run of digits. -/
def dropTrailingZeros (cs : List Char) : List Char :=
  (cs.reverse.dropWhile (· == '0')).reverse

/-- The digits of the positive number `m * 2 ^ p`. -/
def shortest (f : Format) (m : Nat) (p : Int) : Digits :=
  let (low, value, high) := quarterBounds f m p
  let scale := Nat.pow 2 p.toNat
  let den := 4 * Nat.pow 2 (-p).toNat
  let (low, value, high) := (low * scale, value * scale, high * scale)
  let guess : Int := ((Nat.log2 m : Int) + p) * 30103 / 100000 - 1
  let point := decimalPoint value den 8 guess
  let (n, count) := firstGrid (m % 2 == 0) low value high den point 16 1
  let written := Nat.toDigits 10 n
  -- the last grid point before a power of ten has a neighbour with one digit more
  { digits := dropTrailingZeros written
    point := point + ((written.length : Int) - count) }

/-- How digits are laid out as text. -/
structure Layout where
  /-- Whether a point position is written without an exponent. -/
  positional : Int → Bool
  /-- Keep `.0` after a whole number written without an exponent. -/
  keepPoint : Bool

/-- Never an exponent, and no point after a whole number. -/
def Layout.plain : Layout := ⟨fun _ => true, false⟩

/-- Exponents below `10 ^ -4` and from `10 ^ 16` on; a whole number keeps its `.0`. -/
def Layout.general : Layout := ⟨fun point => decide (-3 ≤ point ∧ point ≤ 16), true⟩

/-- Digits without an exponent. -/
def positionalText (keepPoint : Bool) (d : Digits) : String :=
  let tail := if keepPoint then ".0" else ""
  if d.point ≤ 0 then
    "0." ++ String.ofList (List.replicate (-d.point).toNat '0' ++ d.digits)
  else
    let whole := d.point.toNat
    if d.digits.length ≤ whole then
      String.ofList (d.digits ++ List.replicate (whole - d.digits.length) '0') ++ tail
    else
      String.ofList (d.digits.take whole) ++ "." ++ String.ofList (d.digits.drop whole)

def exponentText (d : Digits) : String :=
  let mantissa :=
    match d.digits with
    | [] => "0"
    | [c] => String.singleton c
    | c :: more => String.singleton c ++ "." ++ String.ofList more
  mantissa ++ "e" ++ Text.intText (d.point - 1)

def Layout.text (layout : Layout) (f : Format) : Number → String
  | .nan => "NaN"
  | .infinite negative => if negative then "-inf" else "inf"
  | .finite negative m p =>
    let sign := if negative then "-" else ""
    if m = 0 then sign ++ (if layout.keepPoint then "0.0" else "0")
    else
      let d := shortest f m p
      sign ++
        (if layout.positional d.point then positionalText layout.keepPoint d else exponentText d)

/-- A bit pattern without an exponent. -/
def Format.plainText (f : Format) (bits : Nat) : String :=
  Layout.plain.text f (f.decode bits)

/-- A bit pattern, with an exponent when it is very small or very large. -/
def Format.generalText (f : Format) (bits : Nat) : String :=
  Layout.general.text f (f.decode bits)

end KernelForge.Binary
