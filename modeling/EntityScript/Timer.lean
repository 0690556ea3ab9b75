import EntityScript.Duration
import EntityScript.Entity.Basic
import EntityScript.Script.Basic

/-!
Timers. A timer remembers a place in a script and runs the line from there each time it is due. The
timers of a session stand in slots: a new timer takes the first free slot, and a timer never moves.
-/

namespace EntityScript

/-- A line that runs later. -/
structure Timer where
  name : String
  owner : EntityId
  script : Script
  /-- Where the line begins. -/
  pos : Nat
  interval : Duration
  /-- How often it still runs; zero is for ever. -/
  count : Nat
  /-- When the current interval began. -/
  start : Duration
  /-- Runs only while its owner is inside the active zone. -/
  idle : Bool
  deriving DecidableEq, Repr

namespace Timer

/-- When the timer runs next. -/
def due? (t : Timer) : Option Duration := t.start.add? t.interval

/-- The timer after it ran at a time: the next interval begins where the last one ended. -/
def advanced? (t : Timer) (now : Duration) : Option Timer :=
  if t.interval = .zero then some { t with count := t.count - 1, start := now }
  else t.due?.map fun start => { t with count := t.count - 1, start }

/-- The timer moved on by whole intervals to the last that began by a time. The count of intervals
is kept in 32 bits. -/
def caughtUp? (t : Timer) (now : Duration) : Option Timer :=
  if t.interval = .zero then some { t with start := now }
  else
    let intervals := (now.since t.start).nanos / t.interval.nanos % Nat.pow 2 32
    (t.start.add? ⟨t.interval.nanos * intervals⟩).map fun start => { t with start }

end Timer

/-- The timers of a session in their slots. -/
structure TimerSet where
  slots : Array (Option Timer)

namespace TimerSet

/-- No timers and no slots. -/
def empty : TimerSet := ⟨#[]⟩

/-- Whether a slot holds the timer of an owner and a name. -/
def holds (owner : EntityId) (name : String) (slot : Option Timer) : Bool :=
  slot.any fun t => t.owner = owner && t.name = name

/-- Whether a slot holds a timer of an owner. -/
def ownedBy (owner : EntityId) (slot : Option Timer) : Bool := slot.any (·.owner = owner)

/-- Frees the slots that meet a condition. -/
def free (s : TimerSet) (p : Option Timer → Bool) : TimerSet :=
  ⟨s.slots.map fun slot => if p slot then none else slot⟩

/-- Stops the timer of an owner and a name. -/
def stop (s : TimerSet) (owner : EntityId) (name : String) : TimerSet := s.free (holds owner name)

/-- Puts a timer into the first free slot, or into a new one if none is free. -/
def put (s : TimerSet) (t : Timer) : TimerSet :=
  match s.slots.findIdx? Option.isNone with
  | some i => ⟨s.slots.setIfInBounds i (some t)⟩
  | none => ⟨s.slots.push (some t)⟩

/-- Starts a timer in place of one with the same owner and name. -/
def start (s : TimerSet) (t : Timer) : TimerSet := (s.stop t.owner t.name).put t

/-- Whether the owner has a timer of the name. -/
def contains (s : TimerSet) (owner : EntityId) (name : String) : Bool :=
  s.slots.any (holds owner name)

/-- The timer of an owner and a name. -/
def get? (s : TimerSet) (owner : EntityId) (name : String) : Option Timer :=
  (s.slots.find? (holds owner name)).join

/-- The number of timers of an owner. -/
def countFor (s : TimerSet) (owner : EntityId) : Nat := s.slots.countP (ownedBy owner)

/-- Stops every timer of an owner. -/
def clearFor (s : TimerSet) (owner : EntityId) : TimerSet := s.free (ownedBy owner)

/-- The timers in the order of their slots. -/
def toList (s : TimerSet) : List Timer := s.slots.toList.filterMap id

/-- The number of timers. -/
def size (s : TimerSet) : Nat := s.slots.countP Option.isSome

/-- The timer in a slot. -/
def slot? (s : TimerSet) (i : Nat) : Option Timer := (s.slots[i]?).join

/-- Changes what a slot holds. -/
def setSlot (s : TimerSet) (i : Nat) (t : Option Timer) : TimerSet := ⟨s.slots.setIfInBounds i t⟩

/-- The name of the `n`-th unnamed timer of an entity. -/
def defaultNameAt (n : Nat) : String := "timer_" ++ toString n

/-- The first unused name among the `fuel` default names from the `n`-th on. -/
def defaultNameFrom (s : TimerSet) (owner : EntityId) : Nat → Nat → String
  | 0, n => defaultNameAt n
  | fuel + 1, n =>
    if s.contains owner (defaultNameAt n) then defaultNameFrom s owner fuel (n + 1)
    else defaultNameAt n

/-- The first default name that no timer of the owner has; the owner's timers are too few to use all
the names that are tried. -/
def defaultName (s : TimerSet) (owner : EntityId) : String :=
  s.defaultNameFrom owner (s.countFor owner + 1) 1

end TimerSet

end EntityScript
