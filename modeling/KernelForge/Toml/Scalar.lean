import KernelForge.Binary.Decimal
import KernelForge.Toml.Value

/-!
# Texts, numbers and moments of TOML

Each reader takes the text in front and gives what it stands for with the rest.
-/

namespace KernelForge.Toml

/-! ## Characters -/

/-- A blank within a line. -/
def isBlank (c : Char) : Bool := c == ' ' || c == '\t'

def skipBlank (cs : List Char) : List Char := cs.dropWhile isBlank

/-- A character that stands for itself: no control character but the tab. -/
def isPlain (c : Char) : Bool := c == '\t' || (0x20 ≤ c.toNat && c.toNat != 0x7F)

/-- The rest after a line's end. -/
def newline? : List Char → Option (List Char)
  | '\n' :: rest => some rest
  | '\r' :: '\n' :: rest => some rest
  | _ => none

/-- Drop the end of a line in front, if there is one. -/
def skipNewline (cs : List Char) : List Char := (newline? cs).getD cs

/-- The rest after a word. -/
def word? : List Char → List Char → Option (List Char)
  | [], cs => some cs
  | w :: ws, c :: cs => if w = c then word? ws cs else none
  | _ :: _, [] => none

/-! ## Texts -/

/-- The character of a code point, which is neither a surrogate nor out of range. -/
def charOf? (n : Nat) : Option Char := if n.isValidChar then some (Char.ofNat n) else none

/-- A code point in exactly `count` hexadecimal digits. -/
def codePoint? (count : Nat) (cs : List Char) : Option (Char × List Char) := do
  let digits := cs.take count
  if digits.length = count then
    let n ← Text.digits? 16 digits
    let c ← charOf? n
    return (c, cs.drop count)
  else none

/-- The character an escape stands for, after its backslash. -/
def escape? : List Char → Option (Char × List Char)
  | 'b' :: rest => some ('\x08', rest)
  | 't' :: rest => some ('\t', rest)
  | 'n' :: rest => some ('\n', rest)
  | 'f' :: rest => some ('\x0c', rest)
  | 'r' :: rest => some ('\r', rest)
  | '"' :: rest => some ('"', rest)
  | '\\' :: rest => some ('\\', rest)
  | 'u' :: rest => codePoint? 4 rest
  | 'U' :: rest => codePoint? 8 rest
  | _ => none

/-- A text within double quotes, after the first; `done` is what was read, backwards. -/
def basicBody : Nat → List Char → List Char → Option (String × List Char)
  | 0, _, _ => none
  | fuel + 1, done, cs =>
    match cs with
    | '"' :: rest => some (String.ofList done.reverse, rest)
    | '\\' :: rest => do
      let (c, rest) ← escape? rest
      basicBody fuel (c :: done) rest
    | c :: rest => if isPlain c then basicBody fuel (c :: done) rest else none
    | [] => none

/-- A text within single quotes, after the first. -/
def literalBody (cs : List Char) : Option (String × List Char) :=
  let inside := cs.takeWhile fun c => isPlain c && c != '\x27'
  match cs.drop inside.length with
  | '\x27' :: rest => some (String.ofList inside, rest)
  | _ => none

/-- Drop blanks and ends of lines in front. -/
def skipLines : Nat → List Char → List Char
  | 0, cs => cs
  | fuel + 1, cs =>
    match newline? (skipBlank cs) with
    | some rest => skipLines fuel rest
    | none => skipBlank cs

/-- The rest after a backslash that ends its line, and after the blanks of the lines below. -/
def joinLine? (cs : List Char) : Option (List Char) :=
  (newline? (skipBlank cs)).map fun rest => skipLines rest.length rest

/-- A text of several lines, after its three quotes; three quotes end it, with up to two more that
belong to it. -/
def linesBody (quote : Char) (escapes : Bool) :
    Nat → List Char → List Char → Option (String × List Char)
  | 0, _, _ => none
  | fuel + 1, done, cs =>
    match cs with
    | [] => none
    | c :: rest =>
      if c = quote then
        let run := (cs.takeWhile (· == quote)).length
        if run < 3 then linesBody quote escapes fuel (List.replicate run quote ++ done)
          (cs.drop run)
        else
          let extra := min (run - 3) 2
          some (String.ofList (List.replicate extra quote ++ done).reverse, cs.drop (extra + 3))
      else if c = '\\' ∧ escapes then
        match joinLine? rest with
        | some rest => linesBody quote escapes fuel done rest
        | none => do
          let (c, rest) ← escape? rest
          linesBody quote escapes fuel (c :: done) rest
      else
        match newline? cs with
        | some rest => linesBody quote escapes fuel ('\n' :: done) rest
        | none => if isPlain c then linesBody quote escapes fuel (c :: done) rest else none

/-- A text of any of the four forms. -/
def text? : List Char → Option (String × List Char)
  | '"' :: '"' :: '"' :: rest =>
    let body := skipNewline rest
    linesBody '"' true (body.length + 1) [] body
  | '"' :: rest => basicBody (rest.length + 1) [] rest
  | '\x27' :: '\x27' :: '\x27' :: rest =>
    let body := skipNewline rest
    linesBody '\x27' false (body.length + 1) [] body
  | '\x27' :: rest => literalBody rest
  | _ => none

/-! ## Numbers -/

/-- Digits of a class, single underscores between them. -/
def digitRun (isDigit : Char → Bool) : List Char → List Char × List Char
  | '_' :: c :: rest =>
    if isDigit c then
      let (more, rest) := digitRun isDigit rest
      (c :: more, rest)
    else ([], '_' :: c :: rest)
  | c :: rest =>
    if isDigit c then
      let (more, rest) := digitRun isDigit rest
      (c :: more, rest)
    else ([], c :: rest)
  | [] => ([], [])

/-- A nonempty run of digits that starts with one. -/
def digits? (isDigit : Char → Bool) : List Char → Option (List Char × List Char)
  | c :: rest => if isDigit c then some (digitRun isDigit (c :: rest)) else none
  | [] => none

/-- The sign in front, if there is one. -/
def sign : List Char → List Char × List Char
  | '+' :: rest => ([], rest)
  | '-' :: rest => (['-'], rest)
  | cs => ([], cs)

/-- Decimal digits; a zero in front stands alone. -/
def wholeDigits? : List Char → Option (List Char × List Char)
  | '0' :: rest => some (['0'], rest)
  | cs => digits? Char.isDigit cs

/-- A number in a radix, after its mark. -/
def radixInt? (radix : Nat) (cs : List Char) : Option (Int × List Char) := do
  let (ds, rest) ← digits? (fun c => (Text.digitBelow radix c).isSome) cs
  let n ← Text.digits? radix ds
  if n < Nat.pow 2 63 then return ((n : Int), rest) else none

/-- A whole number of 64 bits. -/
def int? : List Char → Option (Int × List Char)
  | '0' :: 'x' :: rest => radixInt? 16 rest
  | '0' :: 'o' :: rest => radixInt? 8 rest
  | '0' :: 'b' :: rest => radixInt? 2 rest
  | cs => do
    let (minus, rest) := sign cs
    let (ds, rest) ← wholeDigits? rest
    let n ← Text.intOfBits? 64 (minus ++ ds)
    return (n, rest)

/-- The part after a point, with its point. -/
def fraction? : List Char → Option (List Char × List Char)
  | '.' :: rest => do
    let (ds, rest) ← digits? Char.isDigit rest
    return ('.' :: ds, rest)
  | _ => none

/-- The part after an exponent's mark, with its mark. -/
def exponent? : List Char → Option (List Char × List Char)
  | c :: rest =>
    if c = 'e' ∨ c = 'E' then do
      let (minus, rest) := sign rest
      let (ds, rest) ← digits? Char.isDigit rest
      return ('e' :: (minus ++ ds), rest)
    else none
  | [] => none

/-- A number with a point or an exponent. It may not be too large. -/
def decimal? (cs : List Char) : Option (List Char) := do
  let (minus, rest) := sign cs
  let (whole, rest) ← wholeDigits? rest
  let (part, rest) ←
    match fraction? rest with
    | some (f, rest) =>
      match exponent? rest with
      | some (e, rest) => some (f ++ e, rest)
      | none => some (f, rest)
    | none => exponent? rest
  let bits ← Binary.Format.double.read? (String.ofList (minus ++ whole ++ part))
  if bits = Binary.Format.double.infinity then none else return rest

/-- The rest after a number that is not whole. -/
def float? (cs : List Char) : Option (List Char) :=
  (decimal? cs).or (((word? "inf".toList (sign cs).2)).or (word? "nan".toList (sign cs).2))

/-! ## Moments -/

/-- A number in exactly `count` decimal digits, within bounds. -/
def field? (count low high : Nat) (cs : List Char) : Option (Nat × List Char) := do
  let ds := cs.take count
  if ds.length = count && ds.all Char.isDigit then
    let n ← Text.digits? 10 ds
    if low ≤ n && n ≤ high then return (n, cs.drop count) else none
  else none

def daysOf (year month : Nat) : Nat :=
  if month = 2 then if year % 4 = 0 ∧ (year % 100 ≠ 0 ∨ year % 400 = 0) then 29 else 28
  else if month ∈ [4, 6, 9, 11] then 30
  else 31

def date? (cs : List Char) : Option (List Char) := do
  let (year, cs) ← field? 4 0 9999 cs
  let cs ← word? ['-'] cs
  let (month, cs) ← field? 2 1 12 cs
  let cs ← word? ['-'] cs
  let (_, cs) ← field? 2 1 (daysOf year month) cs
  return cs

def time? (cs : List Char) : Option (List Char) := do
  let (_, cs) ← field? 2 0 23 cs
  let cs ← word? [':'] cs
  let (_, cs) ← field? 2 0 59 cs
  let cs ← word? [':'] cs
  let (_, cs) ← field? 2 0 60 cs
  match cs with
  | '.' :: c :: rest => if c.isDigit then return rest.dropWhile Char.isDigit else return cs
  | _ => return cs

/-- The rest after an offset from universal time. -/
def offset? : List Char → Option (List Char)
  | c :: rest =>
    if c = 'Z' ∨ c = 'z' then some rest
    else if c = '+' ∨ c = '-' then do
      let (_, cs) ← field? 2 0 23 rest
      let cs ← word? [':'] cs
      let (_, cs) ← field? 2 0 59 cs
      return cs
    else none
  | [] => none

/-- The rest after the time that follows a date, if one does. -/
def timeOfDate (cs : List Char) : List Char :=
  match cs with
  | c :: rest =>
    if c = 'T' ∨ c = 't' ∨ c = ' ' then
      match time? rest with
      | some cs => (offset? cs).getD cs
      | none => cs
    else cs
  | [] => cs

/-- The rest after a date, a time of day, or both. -/
def moment? (cs : List Char) : Option (List Char) := ((date? cs).map timeOfDate).or (time? cs)

/-- A moment or a number. -/
def number? (cs : List Char) : Option (Value × List Char) :=
  match moment? cs with
  | some rest => some (.moment, rest)
  | none =>
    match float? cs with
    | some rest => some (.float, rest)
    | none => (int? cs).map fun (n, rest) => (.int n, rest)

def truth? (cs : List Char) : Option (Value × List Char) :=
  match word? "true".toList cs with
  | some rest => some (.bool true, rest)
  | none => (word? "false".toList cs).map fun rest => (.bool false, rest)

/-- A value without parts. -/
def scalar? (cs : List Char) : Option (Value × List Char) :=
  match text? cs with
  | some (s, rest) => some (.text s, rest)
  | none => (truth? cs).or (number? cs)

end KernelForge.Toml
