import KernelForge.Error

/-!
# A bounded window of events

A window has a fixed number of slots. A circular window takes the next slot that is not retained
and overwrites what was there; a linear window takes free slots only and fails at its end. A slot
is retained until it is released.
-/

namespace KernelForge.Host

/-- What an event stands for. -/
inductive Descriptor where
  | write (bytes : Nat)
  | read (bytes : Nat)
  | launch (kernel : String)
  | barrier
  | marker
deriving DecidableEq, Repr, Inhabited

def Descriptor.text : Descriptor → String
  | .write n => s!"writeBuffer({n} bytes)"
  | .read n => s!"readBuffer({n} bytes)"
  | .launch k => s!"launch({k})"
  | .barrier => "barrier"
  | .marker => "marker"

/-- Times at which an event started and stopped; zero until it did. -/
structure Timers where
  start : Nat := 0
  stop : Nat := 0
deriving DecidableEq, Repr, Inhabited

namespace Timers

def isComplete (t : Timers) : Bool := t.stop != 0

def elapsed? (t : Timers) : Option Nat := if t.isComplete then some (t.stop - t.start) else none

/-- Timers of no event, which is complete. -/
def none : Timers := ⟨0, 1⟩

end Timers

/-- A slot of a window; `τ` is what times are kept as. -/
structure Slot (τ : Type) where
  event : Option (Descriptor × τ) := none
  retained : Bool := false
  /-- Registered and not released since. -/
  live : Bool := false
deriving Inhabited

structure EventWindow (τ : Type) where
  circular : Bool
  /-- Where the search for a slot starts. -/
  cursor : Nat
  slots : Array (Slot τ)
deriving Inhabited

namespace EventWindow

variable {τ : Type}

def new (capacity : Nat) (circular : Bool) : EventWindow τ :=
  ⟨circular, 0, Array.replicate capacity {}⟩

def capacity (w : EventWindow τ) : Nat := w.slots.size

def isRetained (w : EventWindow τ) (index : Nat) : Bool := (w.slots.getD index {}).retained

def isLive (w : EventWindow τ) (index : Nat) : Bool := (w.slots.getD index {}).live

def retainedCount (w : EventWindow τ) : Nat := w.slots.countP Slot.retained

def nextFree (w : EventWindow τ) : Except Error Nat :=
  if w.circular then
    match (List.range w.capacity).find? fun k => !w.isRetained ((w.cursor + k) % w.capacity) with
    | some k => .ok ((w.cursor + k) % w.capacity)
    | none => .error (.eventSlotsRetained w.retainedCount w.capacity)
  else
    match (List.range' w.cursor (w.capacity - w.cursor)).find? fun i =>
      !w.isLive i && !w.isRetained i with
    | some i => .ok i
    | none => .error (.eventWindowFull w.capacity)

/-- Put an event into a slot. -/
def register (w : EventWindow τ) (d : Descriptor) (times : τ) :
    Except Error (Nat × EventWindow τ) := do
  let index ← w.nextFree
  let slots := w.slots.modify index fun s => { s with event := some (d, times), live := true }
  let cursor := if w.circular then (index + 1) % w.capacity else index + 1
  return (index, { w with slots, cursor })

def event (w : EventWindow τ) (index : Nat) : Except Error (Descriptor × τ) :=
  match (w.slots.getD index {}).event with
  | some e => .ok e
  | none => .error (.undefinedEvent index)

/-- Keep a slot from being taken. -/
def retain (w : EventWindow τ) (index : Nat) : Except Error (EventWindow τ) := do
  let _ ← w.event index
  return { w with slots := w.slots.modify index fun s => { s with retained := true } }

/-- Give a slot free; a linear window goes back to it. -/
def release (w : EventWindow τ) (index : Nat) : Except Error (EventWindow τ) := do
  let _ ← w.event index
  return { w with
    slots := w.slots.modify index fun s => { s with retained := false, live := false }
    cursor := if !w.circular && index < w.cursor then index else w.cursor }

/-- An empty window of the same shape. -/
def reset (w : EventWindow τ) : EventWindow τ := new w.capacity w.circular

end EventWindow

/-- An event as a host sees it; no event at all is complete. -/
structure Event where
  index : Option Nat
  descriptor : Option Descriptor
  timers : Timers
deriving DecidableEq, Repr, Inhabited

namespace Event

def empty : Event := ⟨none, none, .none⟩

def isEmpty (e : Event) : Bool := e.index.isNone

def isComplete (e : Event) : Bool := e.timers.isComplete

end Event

/-- The event of an index; `times` reads what times are kept as. -/
def EventWindow.resolve {τ : Type} (w : EventWindow τ) (times : τ → Timers) :
    Option Nat → Except Error Event
  | none => .ok .empty
  | some index => do
    let (d, t) ← w.event index
    return ⟨some index, some d, times t⟩

end KernelForge.Host
