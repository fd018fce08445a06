import KernelForge.Device.Fault
import KernelForge.Target

/-!
# Ranges of work-items

A launch covers a three-dimensional range of work-items cut into workgroups of one size. The
device's limits say which ranges it accepts; `Range.items` lists the work-items in the order in
which they run.
-/

namespace KernelForge.Device

open Text (natText)

/-- Three numbers, one for each dimension. -/
structure Extent where
  x : Nat
  y : Nat
  z : Nat
deriving DecidableEq, Repr, Inhabited

namespace Extent

def toList (e : Extent) : List Nat := [e.x, e.y, e.z]

/-- Number of points of a box. -/
def volume (e : Extent) : Nat := e.x * e.y * e.z

/-- Apply a function in each dimension. -/
def map₂ (f : Nat → Nat → Nat) (a b : Extent) : Extent := ⟨f a.x b.x, f a.y b.y, f a.z b.z⟩

/-- The point of a box at a position; `x` runs fastest. -/
def point (e : Extent) (position : Nat) : Extent :=
  ⟨position % e.x, position / e.x % e.y, position / (e.x * e.y)⟩

def points (e : Extent) : List Extent := (List.range e.volume).map e.point

end Extent

/-- What a device says about itself. -/
structure Info where
  name : String := "Simulated SPIR-V Device"
  vendor : String := "kiln"
  fp64 : Bool := true
  fp16 : Bool := true
  maxWorkgroup : Nat := 1024
  localMemory : Nat := 64 * 1024
  globalMemory : Nat := 256 * 1024 * 1024
deriving DecidableEq, Repr, Inhabited

def Info.target (i : Info) : Target := ⟨i.fp64, i.fp16⟩

def flagText (b : Bool) : String := if b then "true" else "false"

/-- A device in one line; memory in whole units. -/
def Info.text (i : Info) : String :=
  i.name ++ " (" ++ i.vendor ++ ") fp64=" ++ flagText i.fp64 ++ " fp16=" ++ flagText i.fp16
    ++ " max_workgroup=" ++ natText i.maxWorkgroup ++ " local=" ++ natText (i.localMemory / 1024)
    ++ "KiB global=" ++ natText (i.globalMemory / (1024 * 1024)) ++ "MiB"

structure Range where
  /-- Work-items in each dimension. -/
  global : Extent := ⟨1, 1, 1⟩
  /-- Work-items of a workgroup in each dimension. -/
  perGroup : Extent := ⟨1, 1, 1⟩
deriving DecidableEq, Repr, Inhabited

namespace Range

def line (global perGroup : Nat) : Range := ⟨⟨global, 1, 1⟩, ⟨perGroup, 1, 1⟩⟩

/-- A range of two dimensions. -/
def plane (global perGroup : Nat × Nat) : Range :=
  ⟨⟨global.1, global.2, 1⟩, ⟨perGroup.1, perGroup.2, 1⟩⟩

/-- Number of work-items, a 64-bit word. -/
def total (r : Range) : Except Fault Nat := wordOr .product r.global.volume

/-- Number of work-items of a workgroup, a 64-bit word. -/
def groupSize (r : Range) : Except Fault Nat := wordOr .product r.perGroup.volume

/-- Number of workgroups in each dimension. -/
def groups (r : Range) : Extent := r.global.map₂ (fun g l => g / max l 1) r.perGroup

/-- Whether the workgroups cover a dimension exactly. -/
def checkDimension (dimension global perGroup : Nat) : Except Fault Unit :=
  if perGroup = 0 ∨ global % perGroup ≠ 0 then .error (.unevenRange global perGroup dimension)
  else .ok ()

/-- Whether a device accepts a range. -/
def check (r : Range) (info : Info) : Except Fault Unit := do
  checkDimension 0 r.global.x r.perGroup.x
  checkDimension 1 r.global.y r.perGroup.y
  checkDimension 2 r.global.z r.perGroup.z
  let size ← r.groupSize
  if info.maxWorkgroup < size then throw (.groupTooLarge size info.maxWorkgroup)

end Range

/-- A work-item's view of its range. -/
structure WorkItem where
  globalId : Extent
  globalSize : Extent
  localId : Extent
  groupId : Extent
  groupSize : Extent
deriving DecidableEq, Repr, Inhabited

def Range.item (r : Range) (group position : Extent) : WorkItem where
  globalId := (group.map₂ (· * ·) r.perGroup).map₂ (· + ·) position
  globalSize := r.global
  localId := position
  groupId := group
  groupSize := r.perGroup

def Range.groupItems (r : Range) (group : Extent) : List WorkItem :=
  r.perGroup.points.map (r.item group)

def Range.items (r : Range) : List WorkItem := r.groups.points.flatMap r.groupItems

/-- The value the device provides under a name. -/
def WorkItem.builtIn (w : WorkItem) (b : Spirv.BuiltIn) : Except Fault Extent :=
  if b = Spirv.BuiltIn.globalInvocationId then .ok w.globalId
  else if b = Spirv.BuiltIn.globalSize then .ok w.globalSize
  else if b = Spirv.BuiltIn.localInvocationId then .ok w.localId
  else if b = Spirv.BuiltIn.workgroupId then .ok w.groupId
  else if b = Spirv.BuiltIn.workgroupSize then .ok w.groupSize
  else .error (.unsupportedBuiltIn b)

end KernelForge.Device
