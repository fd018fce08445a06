import KernelForge.Toml.Value

/-!
# Sections of a TOML document

Headers and keys say where a value belongs. A section is **implied** while only names longer than
its own have been given, and **dotted** if a key made it. A section is defined once: a header may
complete an implied section that is not dotted, and a key may extend only a dotted one.
-/

namespace KernelForge.Toml

mutual

/-- What a name stands for. -/
inductive Item where
  | value (v : Value)
  | one (s : Section)
  | many (all : List Section)

inductive Section where
  | mk (implied dotted : Bool) (entries : List (String × Item))

end

namespace Section

def new (implied dotted : Bool) : Section := .mk implied dotted []

/-- Whether only longer names have been given. -/
def implied : Section → Bool
  | .mk i _ _ => i

/-- Whether a key made the section. -/
def dotted : Section → Bool
  | .mk _ d _ => d

def entries : Section → List (String × Item)
  | .mk _ _ es => es

def get? (s : Section) (name : String) : Option Item := s.entries.lookup name

/-- Replace what a name stands for, or add it at the end. -/
def put (name : String) (item : Item) : List (String × Item) → List (String × Item)
  | [] => [(name, item)]
  | (n, i) :: rest => if n = name then (name, item) :: rest else (n, i) :: put name item rest

def insert (s : Section) (name : String) (item : Item) : Section :=
  .mk s.implied s.dotted (put name item s.entries)

def erase (s : Section) (name : String) : Section :=
  .mk s.implied s.dotted (s.entries.filter fun e => e.1 != name)

/-- Change the section at a path, making implied sections on the way; of several
sections under one name the last counts. -/
def alter (byKey : Bool) (change : Section → Option Section) : List String → Section →
    Option Section
  | [], s => change s
  | name :: path, s =>
    match s.get? name with
    | none => do
      let inner ← alter byKey change path (.new true byKey)
      return s.insert name (.one inner)
    | some (.value _) => none
    | some (.one inner) => do
      if byKey && !inner.implied then none
      let inner ← alter byKey change path inner
      return s.insert name (.one inner)
    | some (.many all) => do
      let last ← all.getLast?
      let last ← alter byKey change path last
      return s.insert name (.many (all.dropLast ++ [last]))

/-- Give a new name a value. Names in front of the last lead through dotted sections
only. -/
def assign (path : List String) (name : String) (v : Value) (s : Section) : Option Section :=
  alter true (fun inner =>
    if inner.dotted == path.isEmpty then none
    else if (inner.get? name).isSome then none
    else some (inner.insert name (.value v))) path s

mutual

def valueOf : Item → Value
  | .value v => v
  | .one s => toValue s
  | .many all => .list (valuesOf all)

def toValue : Section → Value
  | .mk _ _ es => .table (entryValues es)

def valuesOf : List Section → List Value
  | [] => []
  | s :: rest => toValue s :: valuesOf rest

def entryValues : List (String × Item) → List (String × Value)
  | [] => []
  | (n, i) :: rest => (n, valueOf i) :: entryValues rest

end

end Section

/-! ## Documents -/

/-- Lines that say something. -/
inductive Line where
  | header (path : List String) (name : String)
  | listHeader (path : List String) (name : String)
  | pair (path : List String) (name : String) (v : Value)

/-- Where the section under the last header goes. -/
inductive Place where
  | top
  | one (path : List String) (name : String)
  | many (path : List String) (name : String)

/-- A document being read: what is complete, and the section under the last header. -/
structure Draft where
  root : Section
  current : Section
  place : Place

namespace Draft

/-- A document before its first line. -/
def new : Draft := ⟨.new false false, .new false false, .top⟩

/-- Put the section under the last header in its place. -/
def close (d : Draft) : Option Section :=
  match d.place with
  | .top => some d.current
  | .one path name =>
      Section.alter false (fun s => some (s.insert name (.one d.current))) path d.root
  | .many path name =>
    Section.alter false (fun s =>
      match s.get? name with
      | none => some (s.insert name (.many [d.current]))
      | some (.many all) => some (s.insert name (.many (all ++ [d.current])))
      | some _ => none) path d.root

/-- The section a header completes, if only longer names have been given. -/
def completed? (root : Section) (path : List String) (name : String) : Option Section := do
  match path with
  | [] =>
    match root.get? name with
    | some (.one s) => some s
    | _ => none
  | n :: rest =>
    match root.get? n with
    | some (.one s) => completed? s rest name
    | some (.many all) => completed? (← all.getLast?) rest name
    | _ => none

def add (d : Draft) : Line → Option Draft
  | .pair path name v => do return { d with current := ← d.current.assign path name v }
  | .header path name => do
    let root ← d.close
    let current := match completed? root path name with
      | some s => .mk false false s.entries
      | none => .new false false
    let root ← Section.alter false (fun s =>
      match s.get? name with
      | none => some s
      | some (.one inner) => if inner.implied && !inner.dotted then some (s.erase name) else none
      | some _ => none) path root
    return ⟨root, current, .one path name⟩
  | .listHeader path name => do
    let root ← d.close
    let root ← Section.alter false (fun s =>
      match s.get? name with
      | none => some (s.insert name (.many []))
      | some (.many _) => some s
      | some _ => none) path root
    return ⟨root, .new false false, .many path name⟩

def ofLines (lines : List Line) : Option Value := do
  let d ← lines.foldlM add new
  return (← d.close).toValue

end Draft

end KernelForge.Toml
