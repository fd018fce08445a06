import KernelForge.Device.Simulator

/-!
# A command queue for each thread

Each thread has its own command queue on each device, made when it is first asked for.
-/

namespace KernelForge.Host

open Device (Operate)

/-- Queue handles by device and thread. A device is listed while a thread has a queue on it. -/
structure ThreadQueues where
  byDevice : Table Nat (Table Nat Nat) := ∅
deriving Inhabited

namespace ThreadQueues

def onDevice (q : ThreadQueues) (device : Nat) : Table Nat Nat := (q.byDevice.get? device).getD ∅

def get? (q : ThreadQueues) (device thread : Nat) : Option Nat := (q.onDevice device).get? thread

def hasDevice (q : ThreadQueues) (device : Nat) : Bool := q.byDevice.contains device

def contains (q : ThreadQueues) (device thread : Nat) : Bool := (q.get? device thread).isSome

def size (q : ThreadQueues) (device : Nat) : Nat := (q.onDevice device).size

def isEmpty (q : ThreadQueues) : Bool := q.byDevice.isEmpty

def insert (q : ThreadQueues) (device thread queue : Nat) : ThreadQueues :=
  ⟨q.byDevice.insert device ((q.onDevice device).insert thread queue)⟩

def erase (q : ThreadQueues) (device thread : Nat) : ThreadQueues :=
  let rest := (q.onDevice device).erase thread
  if rest.isEmpty then ⟨q.byDevice.erase device⟩ else ⟨q.byDevice.insert device rest⟩

def eraseDevice (q : ThreadQueues) (device : Nat) : ThreadQueues := ⟨q.byDevice.erase device⟩

/-- The queue of a thread, made if there is none. -/
def acquire (q : ThreadQueues) (device thread : Nat) : Operate (Nat × ThreadQueues) := do
  match q.get? device thread with
  | some queue => return (queue, q)
  | none =>
    let queue ← Operate.createQueue
    return (queue, q.insert device thread queue)

/-- Forget the queue of a thread; the action destroys it and tells whether there was
one. -/
def cleanup (q : ThreadQueues) (device thread : Nat) : Operate Bool × ThreadQueues :=
  match q.get? device thread with
  | some queue => (do Operate.destroyQueue queue; return true, q.erase device thread)
  | none => (return false, q)

/-- Forget the queues of a device; the action destroys them. -/
def cleanupDevice (q : ThreadQueues) (device : Nat) : Operate Unit × ThreadQueues :=
  ((q.onDevice device).values.forM Operate.destroyQueue, q.eraseDevice device)

end ThreadQueues

end KernelForge.Host
