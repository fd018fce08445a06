import KernelForge.Json.Value

/-!
# Records and tagged alternatives in JSON

Readers for the shapes that plain data takes as JSON.

* A **record** is an object whose known names occur once each, other names being ignored, or an
  array of its fields in order, from which fields at the end may be missing.
* A **tagged alternative** is a bare string, or an object of exactly one member whose name is the
  tag and whose value is the content.
-/

namespace KernelForge.Json

/-- Whether every one of the names occurs at most once. -/
def namedOnce (names : List String) (members : List (String × Json)) : Bool :=
  names.all fun n => (membersNamed n members).length ≤ 1

/-- The fields of a record by name. -/
def record? (names : List String) : Json → Option (List (String × Json))
  | .obj members => if namedOnce names members then some members else none
  | .arr items => if items.length ≤ names.length then some (names.zip items) else none
  | _ => none

def get? (name : String) (fields : List (String × Json)) : Option Json :=
  (membersNamed name fields).head?

/-- Values that are written as trees and read back. -/
class Coded (α : Type) where
  write : α → Json
  read? : Json → Option α

export Coded (write read?)

variable {α β : Type}

/-- A field that has to be present. -/
def required? [Coded α] (name : String) (fields : List (String × Json)) : Option α :=
  (get? name fields).bind read?

/-- A field with a value to fall back on when it is absent. -/
def defaulted? [Coded α] (name : String) (fallback : α) (fields : List (String × Json)) :
    Option α :=
  match get? name fields with
  | none => some fallback
  | some j => read? j

/-- The tag of an alternative and its content. -/
def tagged? : Json → Option (String × Option Json)
  | .str tag => some (tag, none)
  | .obj [(tag, content)] => some (tag, some content)
  | _ => none

/-- An alternative without content: its tag alone, or its tag with `null`. -/
def bare? (j : Json) : Option String :=
  match tagged? j with
  | some (tag, none) => some tag
  | some (tag, some .null) => some tag
  | _ => none

def tag (name : String) (content : Json) : Json := .obj [(name, content)]

/-- A natural number below a limit. -/
def nat? (limit : Nat) : Json → Option Nat
  | .int (.ofNat n) => if n < limit then some n else none
  | _ => none

namespace Coded

/-- Numbers below a limit. -/
abbrev number (limit : Nat) (count : α → Nat) (make : Nat → α) : Coded α where
  write a := .int (count a)
  read? j := (nat? limit j).map make

/-- Alternatives without content, by their names. -/
abbrev named (values : List α) (name : α → String) : Coded α where
  write a := .str (name a)
  read? j := (bare? j).bind fun n => values.find? fun a => name a == n

/-- A value with a name around it. -/
abbrev wrap [Coded α] (content : β → α) (make : α → β) : Coded β where
  write b := write (content b)
  read? j := (read? j).map make

end Coded

instance : Coded String where
  write := .str
  read?
    | .str s => some s
    | _ => none

instance : Coded Bool where
  write := .bool
  read?
    | .bool b => some b
    | _ => none

instance : Coded UInt8 := .number (Nat.pow 2 8) UInt8.toNat UInt8.ofNat

instance : Coded UInt32 := .number (Nat.pow 2 32) UInt32.toNat UInt32.ofNat

instance : Coded Int64 where
  write n := .int n.toInt
  read?
    | .int n =>
      if -(Nat.pow 2 63 : Int) ≤ n ∧ n < Nat.pow 2 63 then some (Int64.ofInt n) else none
    | _ => none

/-- An array, item by item. -/
instance [Coded α] : Coded (List α) where
  write as := .arr (as.map write)
  read?
    | .arr items => items.mapM read?
    | _ => none

/-- A pair as an array of two. -/
instance [Coded α] [Coded β] : Coded (α × β) where
  write p := .arr [write p.1, write p.2]
  read?
    | .arr [a, b] => do return (← read? a, ← read? b)
    | _ => none

/-- Either `null` or a value. -/
instance [Coded α] : Coded (Option α) where
  write
    | none => .null
    | some a => write a
  read?
    | .null => some none
    | j => (read? j).map some

end KernelForge.Json
