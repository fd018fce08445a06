import KernelForge.Toml.Scalar
import KernelForge.Toml.Section

/-!
# Reading TOML

A document is read line by line; lists and inline tables nest less than `nestingLimit` deep.
-/

namespace KernelForge.Toml

/-- Levels of lists and tables, and names of a key, have to stay below this. -/
def nestingLimit : Nat := 80

/-! ## Keys -/

def isBare (c : Char) : Bool := c.isAlphanum || c == '_' || c == '-'

def name? (cs : List Char) : Option (String × List Char) :=
  match cs with
  | '"' :: rest => basicBody (rest.length + 1) [] rest
  | '\x27' :: rest => literalBody rest
  | _ =>
    let bare := cs.takeWhile isBare
    if bare.isEmpty then none else some (String.ofList bare, cs.drop bare.length)

/-- The names of a key, divided by points; the last one apart. -/
def key? : Nat → List String → List Char → Option (List String × String × List Char)
  | 0, _, _ => none
  | room + 1, path, cs => do
    let (name, rest) ← name? (skipBlank cs)
    match skipBlank rest with
    | '.' :: rest => key? room (path ++ [name]) rest
    | rest => return (path, name, rest)

/-! ## Lists and inline tables -/

/-- The rest of a line's comment. -/
def skipComment (cs : List Char) : List Char :=
  match cs with
  | '#' :: rest => rest.dropWhile isPlain
  | _ => cs

/-- Drop blanks, ends of lines and comments in front. -/
def skipSpace : Nat → List Char → List Char
  | 0, cs => cs
  | fuel + 1, cs =>
    match newline? (skipComment (skipBlank cs)) with
    | some rest => skipSpace fuel rest
    | none => skipBlank cs

/-- Items of a list, after its bracket or a comma. -/
def items? (item : List Char → Option (Value × List Char)) :
    Nat → List Value → List Char → Option (List Value × List Char)
  | 0, _, _ => none
  | fuel + 1, done, cs =>
    match skipSpace cs.length cs with
    | ']' :: rest => some (done, rest)
    | cs => do
      let (v, rest) ← item cs
      match skipSpace rest.length rest with
      | ',' :: rest => items? item fuel (done ++ [v]) rest
      | ']' :: rest => return (done ++ [v], rest)
      | _ => none

/-- A name and its value; what is between them and what follows is blank. -/
def pair? (item : List Char → Option (Value × List Char)) (cs : List Char) :
    Option (List String × String × Value × List Char) := do
  let (path, name, rest) ← key? (nestingLimit - 1) [] cs
  let rest ← word? ['='] rest
  let (v, rest) ← item (skipBlank rest)
  return (path, name, v, skipBlank rest)

/-- Pairs of an inline table, after its brace or a comma. -/
def pairs? (item : List Char → Option (Value × List Char)) :
    Nat → Section → List Char → Option (Section × List Char)
  | 0, _, _ => none
  | fuel + 1, s, cs => do
    let (path, name, v, rest) ← pair? item cs
    let s ← s.assign path name v
    match rest with
    | ',' :: rest => pairs? item fuel s rest
    | '\x7d' :: rest => return (s, rest)
    | _ => none

/-- A value with at most so many levels of lists and tables. -/
def value? : Nat → List Char → Option (Value × List Char)
  | 0, cs => scalar? cs
  | levels + 1, cs =>
    match cs with
    | '[' :: rest => do
      let (vs, rest) ← items? (value? levels) (rest.length + 1) [] rest
      return (.list vs, rest)
    | '\x7b' :: rest =>
      match skipBlank rest with
      | '\x7d' :: rest => some (.table [], rest)
      | rest => do
        let (s, rest) ← pairs? (value? levels) (rest.length + 1) (.new false false) rest
        return (s.toValue, rest)
    | cs => scalar? cs

/-! ## Lines -/

/-- The rest after a line's end, which a comment may stand before. -/
def lineEnd? (cs : List Char) : Option (List Char) :=
  match skipComment (skipBlank cs) with
  | [] => some []
  | cs => newline? cs

/-- A header or a pair, with the end of its line. -/
def line? (cs : List Char) : Option (Line × List Char) :=
  match cs with
  | '[' :: '[' :: rest => do
    let (path, name, rest) ← key? (nestingLimit - 1) [] rest
    let rest ← word? [']', ']'] rest
    return (.listHeader path name, ← lineEnd? rest)
  | '[' :: rest => do
    let (path, name, rest) ← key? (nestingLimit - 1) [] rest
    let rest ← word? [']'] rest
    return (.header path name, ← lineEnd? rest)
  | cs => do
    let (path, name, v, rest) ← pair? (value? (nestingLimit - 1)) cs
    return (.pair path name v, ← lineEnd? rest)

/-- The lines that say something. -/
def lines? : Nat → List Line → List Char → Option (List Line)
  | 0, _, _ => none
  | fuel + 1, done, cs =>
    match skipBlank cs with
    | [] => some done.reverse
    | cs =>
      match newline? (skipComment cs) with
      | some rest => lines? fuel done rest
      | none =>
        if (skipComment cs).isEmpty then some done.reverse
        else do
          let (l, rest) ← line? cs
          lines? fuel (l :: done) rest

/-- Drop the mark of byte order in front. -/
def skipMark : List Char → List Char
  | '\uFEFF' :: rest => rest
  | cs => cs

/-- The table of a document. -/
def parse? (text : String) : Option Value := do
  let cs := skipMark text.toList
  Draft.ofLines (← lines? (cs.length + 1) [] cs)

end KernelForge.Toml
