import EntityScript.Entity.Basic
import EntityScript.Event.Parameters

/-!
Events that wait for delivery. The queue has a fixed number of slots: an event takes the first free
one and is dropped if there is none. Every event that was taken in carries a number of its own, by
which a slot that was freed and filled again is told apart.
-/

namespace EntityScript

/-- An event that waits for delivery. -/
structure QueuedEvent where
  sender : Option EntityId
  target : EntityId
  event : EventName
  parameters : Parameters
  deriving DecidableEq, Repr

/-- A filled slot. -/
structure Pending where
  number : Nat
  event : QueuedEvent
  deriving DecidableEq, Repr

/-- The slots with waiting events. -/
structure EventQueue where
  slots : Array (Option Pending)
  /-- The number of the next event that is taken in. -/
  next : Nat
  /-- How many events found no free slot. -/
  dropped : Nat

namespace EventQueue

/-- A queue with a number of free slots. -/
def ofCapacity (capacity : Nat) : EventQueue := ⟨Array.replicate capacity none, 0, 0⟩

/-- Takes an event in, if a slot is free; tells whether it did. -/
def push (q : EventQueue) (e : QueuedEvent) : Bool × EventQueue :=
  match q.slots.findIdx? Option.isNone with
  | some i => (true, { q with slots := q.slots.setIfInBounds i (some ⟨q.next, e⟩), next := q.next + 1 })
  | none => (false, { q with dropped := q.dropped + 1 })

/-- The number of slots. -/
def capacity (q : EventQueue) : Nat := q.slots.size

/-- The number of waiting events. -/
def size (q : EventQueue) : Nat := q.slots.countP Option.isSome

/-- The waiting events in the order of their slots. -/
def toList (q : EventQueue) : List QueuedEvent := (q.slots.toList.filterMap id).map Pending.event

/-- Whether a slot holds an event to or from an entity. -/
def concerns (id : EntityId) (slot : Option Pending) : Bool :=
  slot.any fun p => p.event.target = id || p.event.sender = some id

/-- Frees the slots that meet a condition. -/
def free (q : EventQueue) (p : Option Pending → Bool) : EventQueue :=
  { q with slots := q.slots.map fun slot => if p slot then none else slot }

/-- Drops every event to or from an entity. -/
def clearFor (q : EventQueue) (id : EntityId) : EventQueue := q.free (concerns id)

/-- Drops every event. -/
def clear (q : EventQueue) : EventQueue := q.free fun _ => true

/-- What a slot holds. -/
def slot? (q : EventQueue) (i : Nat) : Option Pending := (q.slots[i]?).join

/-- Frees a slot, unless it was filled again with another event. -/
def release (q : EventQueue) (i number : Nat) : EventQueue :=
  match q.slot? i with
  | some p => if p.number = number then { q with slots := q.slots.setIfInBounds i none } else q
  | none => q

end EventQueue

end EntityScript
