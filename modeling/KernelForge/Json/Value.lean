import KernelForge.Text.Hex

/-!
# JSON trees and their compact text

A JSON tree keeps the members of an object in order, repeated names included. Whole numbers in the
range of 64-bit integers are kept exactly; every other number is kept as its text.
-/

namespace KernelForge

inductive Json where
  | null
  | bool (b : Bool)
  | int (n : Int)
  | real (text : String)
  | str (s : String)
  | arr (items : List Json)
  | obj (members : List (String × Json))
deriving Repr, Inhabited

namespace Json

def escapeChar (c : Char) : String :=
  match c with
  | '"' => "\\\""
  | '\\' => "\\\\"
  | '\n' => "\\n"
  | '\t' => "\\t"
  | '\r' => "\\r"
  | _ =>
    if c.toNat = 8 then "\\b"
    else if c.toNat = 12 then "\\f"
    else if c.toNat < 32 then "\\u" ++ String.ofList (Text.hexPadded 4 c.toNat)
    else String.singleton c

def quote (s : String) : String :=
  "\"" ++ String.join (s.toList.map escapeChar) ++ "\""

mutual

/-- The text of a tree without blanks. -/
def compact : Json → String
  | .null => "null"
  | .bool b => if b then "true" else "false"
  | .int n => Text.intText n
  | .real text => text
  | .str s => quote s
  | .arr items => "[" ++ compactItems items ++ "]"
  | .obj members => "\x7b" ++ compactMembers members ++ "\x7d"

/-- Items divided by commas. -/
def compactItems : List Json → String
  | [] => ""
  | [j] => j.compact
  | j :: rest => j.compact ++ "," ++ compactItems rest

/-- Members divided by commas. -/
def compactMembers : List (String × Json) → String
  | [] => ""
  | [(k, j)] => quote k ++ ":" ++ j.compact
  | (k, j) :: rest => quote k ++ ":" ++ j.compact ++ "," ++ compactMembers rest

end

/-- Values under a name, in order. -/
def membersNamed (name : String) (members : List (String × Json)) : List Json :=
  (members.filter fun m => m.1 == name).map Prod.snd

/-- The last value under a name of an object. -/
def field? (name : String) : Json → Option Json
  | .obj members => (membersNamed name members).getLast?
  | _ => none

end Json

end KernelForge
