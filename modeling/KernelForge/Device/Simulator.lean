import KernelForge.Device.Machine
import KernelForge.Error

/-!
# A device that runs command lists

A device holds memory, installed kernels and command lists. Commands are recorded in a list and
run in order when the list is flushed; a command that fails ends the flush and the rest of the list
is dropped. Reads and timestamps deliver into numbered cells of the device.
-/

namespace KernelForge.Device

inductive Command where
  | write (address : Nat) (data : List UInt8)
  | read (address length : Nat) (sink : Nat)
  | launch (kernel : Nat) (range : Range) (base frame : Nat)
  | stamp (cell : Nat)
  | barrier
deriving DecidableEq, Repr, Inhabited

structure Kernel where
  name : String
  entry : Spirv.Id
  program : Program
deriving Inhabited

structure Simulator where
  info : Info := {}
  heap : Heap := .empty 0
  kernels : Table Nat Kernel := ∅
  lists : Table Nat (List Command) := ∅
  /-- The last handle given out. -/
  lastHandle : Nat := 0
  /-- The last time given out. -/
  clock : Nat := 0
  /-- Readings of the host's clock still to come; after them it stands still. -/
  readings : List Nat := []
  /-- Times taken, by cell; zero until taken. -/
  stamps : Array Nat := #[]
  /-- Bytes read, by cell. -/
  sinks : Array (List UInt8) := #[]
deriving Inhabited

/-- Actions on a device. -/
abbrev Operate := EStateM Error Simulator

namespace Simulator

def new (info : Info) : Simulator := { info, heap := .empty info.globalMemory }

def liveBlocks (d : Simulator) : Nat := d.heap.liveBlocks

def installedKernels (d : Simulator) : Nat := d.kernels.size

/-- The time taken in a cell; zero until taken. -/
def stampAt (d : Simulator) (cell : Nat) : Nat := d.stamps.getD cell 0

def sinkAt (d : Simulator) (cell : Nat) : List UInt8 := d.sinks.getD cell []

/-- A time later than all before it and not before the host's reading. -/
def nextTime (clock reading : Nat) : Nat := if reading ≤ clock then clock + 1 else reading

end Simulator

namespace Operate

/-- Change the heap, or fail as the heap does. -/
def onHeap {α : Type} (f : Heap → Except Fault (α × Heap)) : Operate α := do
  match f (← get).heap with
  | .error fault => throw (.execution fault)
  | .ok (a, heap) =>
    modify fun d => { d with heap }
    return a

def handle : Operate Nat :=
  modifyGet fun d => (d.lastHandle + 1, { d with lastHandle := d.lastHandle + 1 })

/-- A new command list; its handle is also the queue's. -/
def createQueue : Operate Nat := do
  let id ← handle
  modify fun d => { d with lists := d.lists.insert id [] }
  return id

def commands (list : Nat) : Operate (List Command) := do
  match (← get).lists.get? list with
  | some cs => return cs
  | none => throw (.execution (.unknownList list))

/-- Forget a command list and what is recorded in it. -/
def destroyQueue (list : Nat) : Operate Unit := do
  let _ ← commands list
  modify fun d => { d with lists := d.lists.erase list }

/-- The program of a binary and the function of its entry point. -/
def build (binary : List UInt8) (entry : String) : Except Error (Program × Spirv.Id) :=
  match Spirv.wordsOfBytes? binary with
  | none => .error (.buildFailed entry (.program (.partialModule binary.length)))
  | some words =>
    match Program.ofWords words with
    | .error fault => .error (.buildFailed entry fault)
    | .ok p =>
      match p.entry? entry with
      | none => .error (.buildFailed entry (.noEntry entry p.entryNames))
      | some id => .ok (p, id)

def install (binary : List UInt8) (entry : String) : Operate Nat := do
  let (program, id) ← ofExcept (build binary entry)
  let h ← handle
  modify fun d => { d with kernels := d.kernels.insert h ⟨entry, id, program⟩ }
  return h

def releaseKernel (kernel : Nat) : Operate Unit := do
  if (← get).kernels.contains kernel then
    modify fun d => { d with kernels := d.kernels.erase kernel }
  else throw (.unknownKernel (.handle kernel))

def allocate (size : Nat) : Operate Nat := onHeap (·.allocate size)

def free (address : Nat) : Operate Unit := do
  match (← get).heap.free? address with
  | some heap => modify fun d => { d with heap }
  | none => throw (.unknownBuffer address)

def record (list : Nat) (c : Command) : Operate Unit := do
  let cs ← commands list
  modify fun d => { d with lists := d.lists.insert list (cs ++ [c]) }

/-- Record a launch over a range that the device accepts. -/
def launch (list kernel : Nat) (range : Range) (base frame : Nat) : Operate Unit := do
  match range.check (← get).info with
  | .error fault => throw (.execution fault)
  | .ok () => record list (.launch kernel range base frame)

/-- A cell for a time. -/
def newStamp : Operate Nat :=
  modifyGet fun d => (d.stamps.size, { d with stamps := d.stamps.push 0 })

/-- A cell for bytes. -/
def newSink : Operate Nat := modifyGet fun d => (d.sinks.size, { d with sinks := d.sinks.push [] })

/-- The bytes read into a cell, which is then empty. -/
def takeSink (cell : Nat) : Operate (List UInt8) := modifyGet fun d =>
  (d.sinkAt cell, { d with sinks := d.sinks.setIfInBounds cell [] })

def tick : Operate Nat := modifyGet fun d =>
  let time := Simulator.nextTime d.clock (d.readings.headD 0)
  (time, { d with clock := time, readings := d.readings.tail })

def runKernel (kernel : Nat) (range : Range) (base frame : Nat) : Operate Unit := do
  match (← get).kernels.get? kernel with
  | none => throw (.unknownKernel (.handle kernel))
  | some k =>
    let (heap, fault) := k.program.launch k.entry range base frame (← get).heap
    modify fun d => { d with heap }
    match fault with
    | none => return ()
    | some fault => throw (.execution fault)

def execute : Command → Operate Unit
  | .write address data => onHeap fun h => (h.write address data).map ((), ·)
  | .read address length sink => do
    let bytes ← onHeap fun h => (h.read address length).map (·, h)
    modify fun d => { d with sinks := d.sinks.setIfInBounds sink bytes }
  | .launch kernel range base frame => runKernel kernel range base frame
  | .stamp cell => do
    let time ← tick
    modify fun d => { d with stamps := d.stamps.setIfInBounds cell time }
  | .barrier => return ()

/-- Run the commands of a list and empty it. -/
def flush (list : Nat) : Operate Unit := do
  let cs ← commands list
  modify fun d => { d with lists := d.lists.insert list [] }
  cs.forM execute

end Operate

end KernelForge.Device
