/-!
The settings of a session.
-/

namespace EntityScript

/-- The settings of a session. -/
structure Config where
  /-- The number of slots of the event queue. -/
  queueCapacity : Nat := 800
  /-- The most queued events delivered in one frame; zero is no bound. -/
  drainLimit : Nat := 20
  /-- The most entities that one heartbeat visits. -/
  heartbeatBatch : Nat := 10
  /-- The most dispatches inside one another. -/
  maxDepth : Nat := 64
  /-- The seed of the random numbers, if it is fixed. -/
  seed : Option UInt64 := none
  /-- The file with the suppressions. -/
  suppressionFile : Option String := none
  deriving DecidableEq, Repr

end EntityScript
