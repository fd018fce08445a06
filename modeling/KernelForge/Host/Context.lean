import KernelForge.Host.Argument
import KernelForge.Host.EventWindow
import KernelForge.Host.KernelCache
import KernelForge.Host.ThreadQueues

/-!
# Execution plans on devices

Plans hold kernels, buffers, events, queues and parameter frames on devices. Each plan has its own
event window and kernels on each device, and each of its threads its own queue and frame. Work is
recorded between two timestamps of an event and runs when the thread's queue is flushed.
-/

namespace KernelForge.Host

open Device (Operate Simulator)
open Device.Operate (newStamp record)

structure Buffer where
  device : Nat
  address : Nat
  size : Nat
deriving DecidableEq, Repr, Inhabited

/-- A thread's parameter frame. -/
structure Frame where
  address : Nat
  capacity : Nat
  /-- Frames outgrown since the last flush. -/
  retired : List Nat := []
deriving DecidableEq, Repr, Inhabited

/-- Cells of a device that hold the times of an event. -/
structure Brackets where
  start : Nat
  stop : Nat
deriving DecidableEq, Repr, Inhabited

/-- What a plan holds on a device. -/
structure Share where
  events : EventWindow Brackets
  kernels : KernelCache := {}
  buffers : List Buffer := []
  /-- Parameter frames by thread. -/
  frames : Table Nat Frame := ∅
deriving Inhabited

structure Plan where
  /-- Shares by device. -/
  shares : Table Nat Share := ∅
  queues : ThreadQueues := {}
deriving Inhabited

/-- Plans and devices. -/
structure Context where
  settings : RuntimeSettings := {}
  /-- Whether the staging directory can be written to. -/
  stagingOpen : Bool := true
  /-- Binaries written to the staging directory: the part of a file's name after the time, and its
  bytes. -/
  staged : List (String × List UInt8) := []
  /-- Files that kernels can be installed from. -/
  files : Table String (List UInt8) := ∅
  devices : Array Simulator := #[.new {}]
  /-- What plans hold. -/
  plans : Table Nat Plan := ∅
  /-- Plans in use. -/
  inUse : List Nat := []
  /-- Plans that were reset and not used since. -/
  resetPlans : List Nat := []
deriving Inhabited

/-- A read whose bytes arrive when its queue is flushed. -/
structure PendingRead where
  device : Nat
  event : Nat
  brackets : Brackets
  sink : Nat
deriving DecidableEq, Repr, Inhabited

/-- Actions on plans and devices. -/
abbrev Control := EStateM Error Context

namespace Context

/-- Plans in use, in ascending order. -/
def planIds (c : Context) : List Nat := c.inUse.mergeSort (· ≤ ·)

def wasReset (c : Context) (plan : Nat) : Bool := c.resetPlans.contains plan

/-- A share without anything in it. -/
def newShare (c : Context) : Share :=
  { events := .new c.settings.eventWindow c.settings.circularEvents }

def share (c : Context) (plan device : Nat) : Share :=
  ((c.plans.get? plan).bind fun p => p.shares.get? device).getD c.newShare

def setShare (c : Context) (plan device : Nat) (s : Share) : Context :=
  let p := (c.plans.get? plan).getD {}
  { c with plans := c.plans.insert plan { p with shares := p.shares.insert device s } }

def queues (c : Context) (plan : Nat) : ThreadQueues := ((c.plans.get? plan).getD {}).queues

def setQueues (c : Context) (plan : Nat) (q : ThreadQueues) : Context :=
  let p := (c.plans.get? plan).getD {}
  { c with plans := c.plans.insert plan { p with queues := q } }

def timers (c : Context) (device : Nat) (b : Brackets) : Timers :=
  let d := c.devices.getD device {}
  ⟨d.stampAt b.start, d.stampAt b.stop⟩

/-- Whether a plan has an entry point of a unit on a device. -/
def isCached (c : Context) (plan device : Nat) (id entry : String) : Bool :=
  (c.share plan device).kernels.isCached id entry

/-- Number of parameter frames of a plan on a device. -/
def frameCount (c : Context) (plan device : Nat) : Nat :=
  (c.share plan device).frames.values.foldl (fun count f => count + 1 + f.retired.length) 0

def fileHolds (c : Context) (name : String) (bytes : List UInt8) : Bool :=
  c.files.get? name == some bytes

end Context

namespace Control

/-! ## Devices and plans -/

def onDevice {α : Type} (device : Nat) (action : Operate α) : Control α := do
  match (← get).devices[device]? with
  | none => throw (.unknownDevice device)
  | some d =>
    match action.run d with
    | .ok a d =>
      modify fun c => { c with devices := c.devices.setIfInBounds device d }
      return a
    | .error e d =>
      modify fun c => { c with devices := c.devices.setIfInBounds device d }
      throw e

def deviceInfo (device : Nat) : Control Device.Info := onDevice device (return (← get).info)

def track (plan : Nat) : Control Unit := modify fun c =>
  { c with
    plans := c.plans.insert plan ((c.plans.get? plan).getD {})
    inUse := c.inUse.insert plan
    resetPlans := c.resetPlans.filter (· != plan) }

/-- What a plan, taken into use, holds on a device. -/
def claim (plan device : Nat) : Control Share := do
  let _ ← deviceInfo device
  track plan
  return (← get).share plan device

def changeShare (plan device : Nat) (f : Share → Share) : Control Unit := modify fun c =>
  c.setShare plan device (f (c.share plan device))

def queue (plan device thread : Nat) : Control Nat := do
  let _ ← claim plan device
  let (list, queues) ← onDevice device (((← get).queues plan).acquire device thread)
  modify fun c => c.setQueues plan queues
  return list

/-! ## Events -/

/-- Put an event into the window of a plan on a device. -/
def register (plan device : Nat) (d : Descriptor) (b : Brackets) : Control Nat := do
  let (index, events) ← ofExcept (((← get).share plan device).events.register d b)
  changeShare plan device ({ · with events })
  return index

/-- The event at an index, with the cells of its times. -/
def event (plan device index : Nat) : Control (Descriptor × Brackets) := do
  ofExcept (((← get).share plan device).events.event index)

def timers (plan device index : Nat) : Control Timers := do
  let (_, b) ← event plan device index
  return (← get).timers device b

def descriptor (plan device index : Nat) : Control Descriptor :=
  return (← event plan device index).1

def retain (plan device index : Nat) : Control Unit := do
  let events ← ofExcept (((← get).share plan device).events.retain index)
  changeShare plan device ({ · with events })

def release (plan device index : Nat) : Control Unit := do
  let events ← ofExcept (((← get).share plan device).events.release index)
  changeShare plan device ({ · with events })

/-- The event at an index; no event without one. -/
def resolve (plan device : Nat) (index : Option Nat) : Control Event := do
  let c ← get
  ofExcept ((c.share plan device).events.resolve (c.timers device) index)

/-- Record work between the two timestamps of a new event; its index. -/
def bracketed (plan device thread : Nat) (d : Descriptor) (work : Nat → Operate Unit) :
    Control Nat := do
  let list ← queue plan device thread
  let start ← onDevice device newStamp
  let stop ← onDevice device newStamp
  let index ← register plan device d ⟨start, stop⟩
  let recording : Operate Unit := do
    record list (.stamp start)
    work list
    record list (.stamp stop)
  tryCatch (onDevice device recording) fun e => do
    release plan device index
    throw e
  return index

/-- Record a barrier with its event. -/
def barrier (plan device thread : Nat) (d : Descriptor) : Control Nat :=
  bracketed plan device thread d fun list => record list .barrier

/-! ## Kernels -/

def installFrom (plan device : Nat) (id entry : String) (binary : List UInt8)
    (source : Option Source) : Control InstalledKernel := do
  let share := (← get).share plan device
  let (kernel, kernels) ← onDevice device (share.kernels.install id entry binary source)
  changeShare plan device ({ · with kernels })
  return kernel

def stage (id entry : String) (binary : List UInt8) : Control (Option Source) := do
  let c ← get
  let name := stagedName id entry
  if !c.settings.stageToDisk then return none
  else if c.stagingOpen && canStage name then
    set { c with staged := c.staged ++ [(name, binary)] }
    return some (.staged name)
  else throw .staging

/-- Install a binary for an entry point of a unit. -/
def install (plan device : Nat) (id entry : String) (binary : List UInt8) :
    Control InstalledKernel := do
  let _ ← claim plan device
  if binary.isEmpty then throw (.emptyBinary (cacheKey id entry))
  let source ← stage id entry binary
  installFrom plan device id entry binary source

/-- Install a file's binary for an entry point of a unit. -/
def installFile (plan device : Nat) (id entry file : String) : Control InstalledKernel := do
  let _ ← claim plan device
  match (← get).files.get? file with
  | none => throw .staging
  | some binary =>
    if binary.isEmpty then throw (.emptyBinary (cacheKey id entry))
    installFrom plan device id entry binary (some (.file file))

/-- Install every entry point of a module. -/
def installModule (plan device : Nat) (id : String) (m : Codegen.Binary) :
    Control (List InstalledKernel) := do
  let _ ← claim plan device
  m.entryPoints.mapM fun entry => install plan device id entry m.bytes

/-! ## Buffers -/

def allocate (plan device size : Nat) : Control Buffer := do
  let address ← onDevice device (Operate.allocate size)
  track plan
  let buffer : Buffer := ⟨device, address, size⟩
  changeShare plan device fun s => { s with buffers := s.buffers ++ [buffer] }
  return buffer

def free (plan : Nat) (buffer : Buffer) : Control Unit := do
  let buffers := ((← get).share plan buffer.device).buffers
  if buffers.any (·.address == buffer.address) then
    changeShare plan buffer.device
      ({ · with buffers := buffers.eraseP (·.address == buffer.address) })
    onDevice buffer.device (Operate.free buffer.address)
  else throw (.unknownBuffer buffer.address)

/-- Where a copy to or from a buffer starts on the device. -/
def transferStart (buffer : Buffer) (offset length : Nat) : Control Nat := do
  if buffer.size < offset + length then
    throw (.execution (.overrun length offset buffer.size))
  ofExcept ((Device.wordOr .sum (buffer.address + offset)).mapError .execution)

/-- Record a copy to a buffer; the index of its event. -/
def enqueueWrite (plan thread : Nat) (buffer : Buffer) (offset : Nat) (data : List UInt8) :
    Control Nat := do
  let start ← transferStart buffer offset data.length
  bracketed plan buffer.device thread (.write data.length) fun list => do
    record list (.write start data)
    record list .barrier

/-- Record a copy from a buffer. -/
def enqueueRead (plan thread : Nat) (buffer : Buffer) (offset length : Nat) :
    Control PendingRead := do
  let start ← transferStart buffer offset length
  let _ ← claim plan buffer.device
  let sink ← onDevice buffer.device Operate.newSink
  let index ← bracketed plan buffer.device thread (.read length) fun list => do
    record list (.read start length sink)
    record list .barrier
  let (_, brackets) ← event plan buffer.device index
  return ⟨buffer.device, index, brackets, sink⟩

/-- Whether the bytes of a read have arrived. -/
def isComplete (r : PendingRead) : Control Bool :=
  return ((← get).timers r.device r.brackets).isComplete

def takeBytes (r : PendingRead) : Control (List UInt8) := do
  if ← isComplete r then onDevice r.device (Operate.takeSink r.sink)
  else throw (.execution (.unfinishedRead r.event))

/-! ## Launches -/

/-- Least size of a parameter frame, in slots. -/
def minFrameSlots : Nat := 16

/-- The parameter frame of a thread, grown to a size. -/
def frameFor (plan device thread bytes : Nat) : Control Nat := do
  match ((← get).share plan device).frames.get? thread with
  | some frame =>
    if bytes ≤ frame.capacity then return frame.address
    else
      let capacity := bytes.nextPowerOfTwo
      let address ← onDevice device (Operate.allocate capacity)
      let grown : Frame := ⟨address, capacity, frame.retired ++ [frame.address]⟩
      changeShare plan device fun s => { s with frames := s.frames.insert thread grown }
      return address
  | none =>
    let capacity := (max bytes (minFrameSlots * 8)).nextPowerOfTwo
    let address ← onDevice device (Operate.allocate capacity)
    changeShare plan device fun s =>
      { s with frames := s.frames.insert thread ⟨address, capacity, []⟩ }
    return address

/-- Record a launch of the kernel under a key; the index of its event. -/
def launch (plan device thread : Nat) (key : String) (range : Device.Range) (args : List Argument) :
    Control Nat := do
  match (← claim plan device).kernels.getKey? key with
  | none => throw (.unknownKernel (.key key))
  | some kernel =>
    match range.check (← deviceInfo device) with
    | .error fault => throw (.execution fault)
    | .ok () =>
      let bytes := frameBytes args
      let address ← frameFor plan device thread bytes.length
      bracketed plan device thread (.launch kernel.entry) fun list => do
        record list (.write address bytes)
        record list .barrier
        Operate.launch list kernel.handle range Device.heapBase (address - Device.heapBase)

/-- Run what a thread has recorded, then free the frames it has outgrown. -/
def flush (plan device thread : Nat) : Control Unit := do
  let list ← queue plan device thread
  onDevice device (Operate.flush list)
  (((← get).share plan device).frames.get? thread).forM fun frame => do
    changeShare plan device fun s =>
      { s with frames := s.frames.insert thread { frame with retired := [] } }
    onDevice device (frame.retired.forM Operate.free)

/-- Whether one of some events has not stopped; looks no further than the first of them. -/
def anyPending (plan device : Nat) : List Nat → Control Bool
  | [] => return false
  | index :: rest => do
    if (← timers plan device index).isComplete then anyPending plan device rest else return true

/-- Flush if one of some events has not stopped. -/
def wait (plan device thread : Nat) (events : List Nat) : Control Unit := do
  if ← anyPending plan device events then flush plan device thread

def write (plan thread : Nat) (buffer : Buffer) (offset : Nat) (data : List UInt8) :
    Control Nat := do
  let index ← enqueueWrite plan thread buffer offset data
  flush plan buffer.device thread
  return index

def upload (plan device thread size : Nat) (bytes : Unit → List UInt8) : Control Buffer := do
  let buffer ← allocate plan device size
  let _ ← write plan thread buffer 0 (bytes ())
  return buffer

def read (plan thread : Nat) (buffer : Buffer) (offset length : Nat) : Control (List UInt8) := do
  let pending ← enqueueRead plan thread buffer offset length
  flush plan buffer.device thread
  takeBytes pending

/-! ## Clean-up -/

/-- Destroy the queue of a thread; whether it had one. -/
def cleanupQueue (plan device thread : Nat) : Control Bool := do
  let _ ← deviceInfo device
  let c ← get
  if c.plans.contains plan then
    let (destroy, queues) := (c.queues plan).cleanup device thread
    set (c.setQueues plan queues)
    onDevice device destroy
  else return false

/-- Forget a thread's frame and free its blocks. -/
def dropFrame (plan device thread : Nat) (frame : Frame) : Control Unit := do
  changeShare plan device fun s => { s with frames := s.frames.erase thread }
  onDevice device do
    Operate.free frame.address
    frame.retired.forM Operate.free

/-- Forget what a plan holds on a device, and release and free it. -/
def dispose (plan device : Nat) : Control Unit := do
  let c ← get
  let held := c.share plan device
  changeShare plan device ({ · with events := c.newShare.events, kernels := {} })
  onDevice device held.kernels.release
  held.frames.entries.forM fun entry => dropFrame plan device entry.1 entry.2
  changeShare plan device ({ · with buffers := [] })
  onDevice device (held.buffers.forM fun b => Operate.free b.address)

/-- Drop everything a plan holds. -/
def reset (plan : Nat) : Control Unit := do
  let devices := List.range (← get).devices.size
  devices.forM (dispose plan)
  let queues := (← get).queues plan
  modify fun c => c.setQueues plan {}
  devices.forM fun device => onDevice device (queues.cleanupDevice device).1
  modify fun c =>
    { c with
      plans := c.plans.erase plan
      inUse := c.inUse.filter (· != plan)
      resetPlans := plan :: c.resetPlans.filter (· != plan) }

end Control

end KernelForge.Host
