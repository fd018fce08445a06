/-!
# Values of a TOML document

Numbers with a point and moments in time are only checked, so their values carry nothing.
-/

namespace KernelForge.Toml

inductive Value where
  | text (s : String)
  | int (n : Int)
  | float
  | bool (b : Bool)
  | moment
  | list (items : List Value)
  | table (entries : List (String × Value))
deriving Repr, Inhabited

namespace Value

def text? : Value → Option String
  | .text s => some s
  | _ => none

def bool? : Value → Option Bool
  | .bool b => some b
  | _ => none

def nat? : Value → Option Nat
  | .int n => if 0 ≤ n then some n.toNat else none
  | _ => none

/-- The fields of a record: a table, or a list of the fields in order. -/
def record? (names : List String) : Value → Option (List (String × Value))
  | .table entries => some entries
  | .list items => some (names.zip items)
  | _ => none

/-- A field of a record with a value to fall back on when it is absent. -/
def defaulted? {α : Type} (name : String) (fallback : α) (read : Value → Option α)
    (fields : List (String × Value)) : Option α :=
  match fields.lookup name with
  | none => some fallback
  | some v => read v

end Value

end KernelForge.Toml
