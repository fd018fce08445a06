import KernelForge.Json.Value

/-!
# Reading JSON text

A recursive reader over the characters of a text. Each function returns what it read and the rest
of the text, or nothing when the text is not JSON. A whole number outside the range of 64-bit
integers, and minus zero, are kept as text like every other number that is not whole.
-/

namespace KernelForge.Json

/-- Drop the four blank characters of JSON. -/
def skipBlank (cs : List Char) : List Char :=
  cs.dropWhile fun c => c == ' ' || c == '\n' || c == '\t' || c == '\r'

def dropWord : List Char → List Char → Option (List Char)
  | [], cs => some cs
  | w :: ws, c :: cs => if w = c then dropWord ws cs else none
  | _ :: _, [] => none

/-- Four hexadecimal digits. -/
def hex4? : List Char → Option (Nat × List Char)
  | a :: b :: c :: d :: rest => (Text.digits? 16 [a, b, c, d]).map fun n => (n, rest)
  | _ => none

/-- A `\u` escape after its mark; a high half needs its low half. -/
def unicodeEscape? (cs : List Char) : Option (Char × List Char) := do
  let (n, rest) ← hex4? cs
  if 0xD800 ≤ n ∧ n < 0xDC00 then
    let rest ← dropWord ['\\', 'u'] rest
    let (low, rest) ← hex4? rest
    if 0xDC00 ≤ low ∧ low < 0xE000 then
      return (Char.ofNat (0x10000 + (n - 0xD800) * 0x400 + (low - 0xDC00)), rest)
    else none
  else if 0xDC00 ≤ n ∧ n < 0xE000 then none
  else return (Char.ofNat n, rest)

def simpleEscape? : Char → Option Char
  | '"' => some '"'
  | '\\' => some '\\'
  | '/' => some '/'
  | 'b' => some (Char.ofNat 8)
  | 'f' => some (Char.ofNat 12)
  | 'n' => some '\n'
  | 'r' => some '\r'
  | 't' => some '\t'
  | _ => none

/-- Rest of a string after its opening quote; `acc` holds the characters read, last first. -/
def stringBody : Nat → List Char → List Char → Option (String × List Char)
  | 0, _, _ => none
  | _ + 1, _, [] => none
  | fuel + 1, acc, c :: cs =>
    if c = '"' then some (String.ofList acc.reverse, cs)
    else if c = '\\' then
      match cs with
      | 'u' :: more =>
        match unicodeEscape? more with
        | some (e, rest) => stringBody fuel (e :: acc) rest
        | none => none
      | e :: more =>
        match simpleEscape? e with
        | some e => stringBody fuel (e :: acc) more
        | none => none
      | [] => none
    else if c.toNat < 32 then none
    else stringBody fuel (c :: acc) cs

/-- Digits of a whole part: a single zero, or digits that do not start with zero. -/
def wholePart? (cs : List Char) : Option (List Char × List Char) :=
  match cs.takeWhile Char.isDigit, cs.dropWhile Char.isDigit with
  | [], _ => none
  | '0' :: _ :: _, _ => none
  | digits, rest => some (digits, rest)

/-- An optional fraction: a point and at least one digit. -/
def fractionPart? : List Char → Option (List Char × List Char)
  | '.' :: cs =>
    match cs.takeWhile Char.isDigit, cs.dropWhile Char.isDigit with
    | [], _ => none
    | digits, rest => some ('.' :: digits, rest)
  | cs => some ([], cs)

/-- An optional exponent: a mark, an optional sign and at least one digit. -/
def exponentPart? : List Char → Option (List Char × List Char)
  | c :: cs =>
    if c = 'e' ∨ c = 'E' then
      let (sign, cs) :=
        match cs with
        | '+' :: more => (['+'], more)
        | '-' :: more => (['-'], more)
        | more => ([], more)
      match cs.takeWhile Char.isDigit, cs.dropWhile Char.isDigit with
      | [], _ => none
      | digits, rest => some (c :: sign ++ digits, rest)
    else some ([], c :: cs)
  | [] => some ([], [])

/-- A number whose sign has been read. -/
def unsignedNumber? (negative : Bool) (cs : List Char) : Option (Json × List Char) := do
  let (whole, rest) ← wholePart? cs
  let (fraction, rest) ← fractionPart? rest
  let (exponent, rest) ← exponentPart? rest
  let sign := if negative then ['-'] else []
  let text := String.ofList (sign ++ whole ++ fraction ++ exponent)
  if fraction.isEmpty && exponent.isEmpty then
    let n ← Text.digits? 10 whole
    if negative then
      if 0 < n ∧ n ≤ Nat.pow 2 63 then return (.int (-(n : Int)), rest)
      else return (.real text, rest)
    else if n < Nat.pow 2 64 then return (.int n, rest)
    else return (.real text, rest)
  else return (.real text, rest)

mutual

/-- A value, blanks before it allowed. -/
def value? : Nat → List Char → Option (Json × List Char)
  | 0, _ => none
  | fuel + 1, cs =>
    match skipBlank cs with
    | 'n' :: rest => (dropWord ['u', 'l', 'l'] rest).map fun r => (.null, r)
    | 't' :: rest => (dropWord ['r', 'u', 'e'] rest).map fun r => (.bool true, r)
    | 'f' :: rest => (dropWord ['a', 'l', 's', 'e'] rest).map fun r => (.bool false, r)
    | '"' :: rest => (stringBody fuel [] rest).map fun p => (.str p.1, p.2)
    | '[' :: rest =>
      match skipBlank rest with
      | ']' :: rest => some (.arr [], rest)
      | rest => items? fuel [] rest
    | '\x7b' :: rest =>
      match skipBlank rest with
      | '\x7d' :: rest => some (.obj [], rest)
      | rest => members? fuel [] rest
    | '-' :: rest => unsignedNumber? true rest
    | rest => unsignedNumber? false rest

/-- Items of an array after its bracket; `acc` holds those read, last first. -/
def items? : Nat → List Json → List Char → Option (Json × List Char)
  | 0, _, _ => none
  | fuel + 1, acc, cs =>
    match value? fuel cs with
    | none => none
    | some (j, rest) =>
      match skipBlank rest with
      | ',' :: rest => items? fuel (j :: acc) rest
      | ']' :: rest => some (.arr (j :: acc).reverse, rest)
      | _ => none

/-- Members of an object after its brace; `acc` holds those read, last first. -/
def members? : Nat → List (String × Json) → List Char → Option (Json × List Char)
  | 0, _, _ => none
  | fuel + 1, acc, cs =>
    match skipBlank cs with
    | '"' :: rest =>
      match stringBody fuel [] rest with
      | none => none
      | some (k, rest) =>
        match skipBlank rest with
        | ':' :: rest =>
          match value? fuel rest with
          | none => none
          | some (j, rest) =>
            match skipBlank rest with
            | ',' :: rest => members? fuel ((k, j) :: acc) rest
            | '\x7d' :: rest => some (.obj ((k, j) :: acc).reverse, rest)
            | _ => none
        | _ => none
    | _ => none

end

/-- The tree of a whole text. -/
def parse? (text : String) : Option Json :=
  let cs := text.toList
  match value? (2 * cs.length + 2) cs with
  | some (j, rest) => if (skipBlank rest).isEmpty then some j else none
  | none => none

end KernelForge.Json
