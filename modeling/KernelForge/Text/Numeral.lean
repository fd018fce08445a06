/-!
# Whole numbers as text

Reading and writing of whole numbers. A numeral is a nonempty run of digits of its radix with an
optional plus sign (and, for signed numbers, an optional minus sign instead); there are no
separators and no blanks.
-/

namespace KernelForge.Text

/-- Value of a digit character, letters of either case standing for ten and up. -/
def digitValue (c : Char) : Option Nat :=
  if '0' ≤ c ∧ c ≤ '9' then some (c.toNat - '0'.toNat)
  else if 'a' ≤ c ∧ c ≤ 'z' then some (c.toNat - 'a'.toNat + 10)
  else if 'A' ≤ c ∧ c ≤ 'Z' then some (c.toNat - 'A'.toNat + 10)
  else none

def digitBelow (radix : Nat) (c : Char) : Option Nat :=
  (digitValue c).filter (· < radix)

/-- Continue reading digits after the number `acc`. -/
def digitsFrom (radix acc : Nat) : List Char → Option Nat
  | [] => some acc
  | c :: cs => (digitBelow radix c).bind fun d => digitsFrom radix (acc * radix + d) cs

/-- A nonempty run of digits, most significant first. -/
def digits? (radix : Nat) : List Char → Option Nat
  | [] => none
  | cs => digitsFrom radix 0 cs

def dropPlus : List Char → List Char
  | '+' :: cs => cs
  | cs => cs

/-- A natural numeral with an optional plus sign, below `limit`. -/
def natBelow? (radix limit : Nat) (cs : List Char) : Option Nat :=
  (digits? radix (dropPlus cs)).filter (· < limit)

/-- An integer numeral with an optional sign, in the two's complement range of `bits` bits. -/
def intOfBits? (bits : Nat) : List Char → Option Int
  | '-' :: cs => ((digits? 10 cs).filter (· ≤ Nat.pow 2 (bits - 1))).map fun n => -(n : Int)
  | cs => (natBelow? 10 (Nat.pow 2 (bits - 1)) cs).map Int.ofNat

def natText (n : Nat) : String :=
  String.ofList (Nat.toDigits 10 n)

/-- Decimal text of an integer, with a minus sign in front of a negative one. -/
def intText : Int → String
  | .ofNat n => natText n
  | .negSucc n => "-" ++ natText (n + 1)

end KernelForge.Text
