import KernelForge.Device.Fault

/-!
# Device memory

A heap of bytes whose addresses start at `heapBase`. Blocks are handed out one after another, each
at a multiple of 64 bytes; freeing a block forgets it and gives no room back. Reading and writing
look at the bytes handed out so far, not at blocks. A request whose end is no 64-bit word stops the
device, whatever its capacity is.
-/

namespace KernelForge.Device

/-- Address of the first byte of the heap. -/
def heapBase : Nat := 0x10000000

/-- Blocks start at multiples of this many bytes. -/
def alignment : Nat := 64

/-- Device memory. -/
structure Heap where
  /-- Bytes handed out so far. -/
  bytes : Array UInt8
  capacity : Nat
  /-- Sizes of the live blocks by address. -/
  blocks : Table Nat Nat
deriving Inhabited

namespace Heap

def empty (capacity : Nat) : Heap := ⟨#[], capacity, ∅⟩

def used (h : Heap) : Nat := h.bytes.size

/-- Where the next block starts. -/
def nextOffset (h : Heap) : Nat := (h.used + (alignment - 1)) / alignment * alignment

/-- Bytes cut or filled with zeros to a size. -/
def resize (bytes : Array UInt8) (size : Nat) : Array UInt8 :=
  if size ≤ bytes.size then bytes.extract 0 size
  else bytes ++ Array.replicate (size - bytes.size) 0

/-- Where a new block ends, which takes at least one byte. -/
def nextStop (h : Heap) (size : Nat) : Nat := h.nextOffset + max size 1

/-- The address of a new block of zero bytes. Where it ends is a 64-bit word, and bytes in one piece
are fewer than half of what such words can count. -/
def allocate (h : Heap) (size : Nat) : Except Fault (Nat × Heap) := do
  let stop ← wordOr .sum (h.nextStop size)
  if h.capacity < stop then throw (.outOfMemory size h.used h.capacity)
  if Nat.pow 2 63 ≤ stop then throw (.trapped .extent)
  let address := heapBase + h.nextOffset
  return (address,
    { h with bytes := resize h.bytes stop, blocks := h.blocks.insert address size })

def blockSize? (h : Heap) (address : Nat) : Option Nat := h.blocks.get? address

/-- Forget the live block at an address; none if there is no such block. -/
def free? (h : Heap) (address : Nat) : Option Heap :=
  if h.blocks.contains address then some { h with blocks := h.blocks.erase address } else none

def liveBlocks (h : Heap) : Nat := h.blocks.size

/-- Whether the bytes at an address have all been handed out. -/
def InBounds (h : Heap) (address length : Nat) : Prop :=
  heapBase ≤ address ∧ address - heapBase + length ≤ h.bytes.size

instance (h : Heap) (address length : Nat) : Decidable (h.InBounds address length) :=
  inferInstanceAs (Decidable (_ ∧ _))

def read (h : Heap) (address length : Nat) : Except Fault (List UInt8) :=
  if h.InBounds address length then
    let start := address - heapBase
    .ok (h.bytes.extract start (start + length)).toList
  else .error (.outsideMemory length address)

/-- Put bytes into an array from a position on. -/
def overwrite (bytes : Array UInt8) (start : Nat) : List UInt8 → Array UInt8
  | [] => bytes
  | b :: rest => overwrite (bytes.setIfInBounds start b) (start + 1) rest

def write (h : Heap) (address : Nat) (data : List UInt8) : Except Fault Heap :=
  if h.InBounds address data.length then
    .ok { h with bytes := overwrite h.bytes (address - heapBase) data }
  else .error (.outsideMemory data.length address)

end Heap

end KernelForge.Device
