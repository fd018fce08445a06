import KernelForge.Device.Simulator

/-!
# Installed kernels by key

A kernel is installed under the key made of a unit's id and an entry point. A later install under
the same key takes its place and releases what was there.
-/

namespace KernelForge.Host

open Device (Operate)

/-- The key of an entry point of a unit. -/
def cacheKey (id entry : String) : String := id ++ "-" ++ entry

/-- Where a binary was written to or read from. -/
inductive Source where
  /-- Written to the staging directory; the part of the file's name after the time. -/
  | staged (name : String)
  /-- Read from a file. -/
  | file (name : String)
deriving DecidableEq, Repr, Inhabited

structure InstalledKernel where
  key : String
  entry : String
  binary : List UInt8
  source : Option Source
  handle : Nat
deriving Repr, Inhabited

/-- Installed kernels of a plan on a device. -/
structure KernelCache where
  byKey : Table String InstalledKernel := ∅
deriving Inhabited

namespace KernelCache

def size (c : KernelCache) : Nat := c.byKey.size

def isEmpty (c : KernelCache) : Bool := c.byKey.isEmpty

def getKey? (c : KernelCache) (key : String) : Option InstalledKernel := c.byKey.get? key

def get? (c : KernelCache) (id entry : String) : Option InstalledKernel :=
  c.getKey? (cacheKey id entry)

def isCached (c : KernelCache) (id entry : String) : Bool := (c.get? id entry).isSome

/-- Install a binary under the key of an entry point of a unit. -/
def install (c : KernelCache) (id entry : String) (binary : List UInt8) (source : Option Source) :
    Operate (InstalledKernel × KernelCache) := do
  let key := cacheKey id entry
  let handle ← Operate.install binary entry
  let kernel : InstalledKernel := ⟨key, entry, binary, source, handle⟩
  (c.getKey? key).forM fun previous => Operate.releaseKernel previous.handle
  return (kernel, ⟨c.byKey.insert key kernel⟩)

def release (c : KernelCache) : Operate Unit :=
  c.byKey.values.forM fun k => Operate.releaseKernel k.handle

end KernelCache

/-! ## Staging -/

/-- Longest name of a file, in bytes. -/
def fileNameLimit : Nat := 255

/-- Digits of the time, in nanoseconds, that a staged file's name starts with. -/
def timeDigits : Nat := 19

/-- The part of a staged file's name after the time. -/
def stagedName (id entry : String) : String := id ++ entry ++ ".spv"

/-- Whether a file of that name can be staged: the name has no separator and no NUL, and is not
too long once the time and a dash stand before it. -/
def canStage (name : String) : Bool :=
  !name.toList.contains '/' && !name.toList.contains '\x00'
    && timeDigits + 1 + name.utf8ByteSize ≤ fileNameLimit

end KernelForge.Host
