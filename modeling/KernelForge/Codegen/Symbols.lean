import KernelForge.Codegen.Session

/-!
# Names of a function under assembly

Which id each value, slot, array and block of a function has. A merge may name a value before its
definition: the id is then reserved, and the definition takes the reserved id. Reservations that
are left at the end belong to values that were never defined.
-/

namespace KernelForge.Codegen

open Lir (Kind Region ValueId BlockId ArrayId)
open Spirv (Id)

/-- Storage of a declared array. -/
structure ArraySlot where
  storageVar : Id
  element : Kind
  length : UInt32
  region : Region
deriving DecidableEq, Repr, Inhabited

/-- Names of a function under assembly. -/
structure Symbols where
  values : Table ValueId Id := ∅
  slots : Table ValueId Id := ∅
  /-- Ids that merges already refer to. -/
  reserved : Table ValueId Id := ∅
  arrays : Table ArrayId ArraySlot := ∅
  labels : Table BlockId Id := ∅
deriving Inhabited

namespace Symbols

/-- Point a value at an id; the latest definition counts. -/
def define (t : Symbols) (v : ValueId) (id : Id) : Symbols :=
  { t with values := t.values.insert v id }

def lookup (t : Symbols) (v : ValueId) : Except Error Id :=
  match t.values.get? v with
  | some id => .ok id
  | none => .error (.undefinedValue (.value v))

/-- The reserved id of a value, or else its definition. -/
def resolve? (t : Symbols) (v : ValueId) : Option Id := (t.reserved.get? v).or (t.values.get? v)

def resolve (t : Symbols) (v : ValueId) : Except Error Id :=
  match t.resolve? v with
  | some id => .ok id
  | none => .error (.undefinedValue (.value v))

def isReserved (t : Symbols) (v : ValueId) : Bool := t.reserved.contains v

/-- Insert a value name in ascending order. -/
def insertSorted (v : ValueId) : List ValueId → List ValueId
  | [] => [v]
  | w :: rest => if v.index ≤ w.index then v :: w :: rest else w :: insertSorted v rest

/-- Values with a reserved id, in ascending order. -/
def pending (t : Symbols) : List ValueId := t.reserved.keys.foldr insertSorted []

end Symbols

/-- A function under assembly: the session and the names. -/
structure Body where
  session : Session := {}
  symbols : Symbols := {}
deriving Inhabited

namespace Body

def fresh (b : Body) : Id × Body :=
  let (id, draft) := b.session.draft.fresh
  (id, { b with session := { b.session with draft } })

/-- The id a later definition of a value will take. -/
def reserve (b : Body) (v : ValueId) : Id × Body :=
  match b.symbols.reserved.get? v with
  | some id => (id, b)
  | none =>
    let (id, b) := b.fresh
    (id, { b with symbols := { b.symbols with reserved := b.symbols.reserved.insert v id } })

/-- The id of a new definition: the reserved one if a merge waits for it. -/
def resultId (b : Body) (v : ValueId) : Id × Body :=
  match b.symbols.reserved.get? v with
  | some id => (id, { b with symbols := { b.symbols with reserved := b.symbols.reserved.erase v } })
  | none => b.fresh

/-- The label of a block, given at its first mention. -/
def label (b : Body) (block : BlockId) : Id × Body :=
  match b.symbols.labels.get? block with
  | some id => (id, b)
  | none =>
    let (id, b) := b.fresh
    (id, { b with symbols := { b.symbols with labels := b.symbols.labels.insert block id } })

end Body

end KernelForge.Codegen
