import KernelForge.Table

/-!
# Files as the command line sees them

Paths lead from a directory through the directories in it to a file. Paths that start at the root
of the file system lead nowhere.
-/

namespace KernelForge.Cli

/-- Why a file cannot be read. -/
inductive ReadFault where
  | missing
  | notDirectory
  | isDirectory
  | notText
deriving DecidableEq, Repr, Inhabited

def ReadFault.message : ReadFault → String
  | .missing => "No such file or directory (os error 2)"
  | .notDirectory => "Not a directory (os error 20)"
  | .isDirectory => "Is a directory (os error 21)"
  | .notText => "stream did not contain valid UTF-8"

/-- Files by the names that lead to them. -/
structure Directory where
  files : Table (List String) (List UInt8) := ∅
deriving Inhabited

namespace Directory

/-- The parts of a path between slashes. -/
def parts : List Char → List (List Char)
  | [] => [[]]
  | c :: rest =>
    if c = '/' then [] :: parts rest
    else
      match parts rest with
      | part :: more => (c :: part) :: more
      | [] => [[c]]

def names (path : String) : List String := (parts path.toList).map String.ofList

def isDirectory (d : Directory) (at_ : List String) : Bool :=
  at_.isEmpty || d.files.keys.any fun k => at_.isPrefixOf k && at_ != k

def isFile (d : Directory) (at_ : List String) : Bool := d.files.contains at_

/-- The directory that names lead to, from another one. -/
def enter (d : Directory) : List String → List String → Except ReadFault (List String)
  | at_, [] => .ok at_
  | at_, name :: rest =>
    if name = "" ∨ name = "." then d.enter at_ rest
    else if name = ".." then
      if at_.isEmpty then .error .missing else d.enter at_.dropLast rest
    else if d.isDirectory (at_ ++ [name]) then d.enter (at_ ++ [name]) rest
    else if d.isFile (at_ ++ [name]) then .error .notDirectory
    else .error .missing

/-- Where a path leads, if it names a file or could name one. -/
def locate (d : Directory) (path : String) : Except ReadFault (List String) := do
  if path.startsWith "/" || path == "" then throw .missing
  let ns := names path
  let at_ ← d.enter [] ns.dropLast
  match ns.getLast? with
  | none => throw .missing
  | some name =>
    if name ∈ ["", ".", ".."] then throw .isDirectory
    else if d.isDirectory (at_ ++ [name]) then throw .isDirectory
    else return at_ ++ [name]

def read (d : Directory) (path : String) : Except ReadFault (List UInt8) := do
  match d.files.get? (← d.locate path) with
  | some bytes => return bytes
  | none => throw .missing

def canWrite (d : Directory) (path : String) : Bool := (d.locate path).isOk

def write (d : Directory) (path : String) (bytes : List UInt8) : Directory :=
  match d.locate path with
  | .ok at_ => ⟨d.files.insert at_ bytes⟩
  | .error _ => d

/-- Whether there is a directory at a path or one can be made: no file stands in the way. -/
def canMake (d : Directory) (path : String) : Bool :=
  let ns := (names path).filter fun n => n != "" && n != "."
  path.startsWith "/" || !((List.range (ns.length + 1)).any fun k => d.isFile (ns.take k))

end Directory

end KernelForge.Cli
