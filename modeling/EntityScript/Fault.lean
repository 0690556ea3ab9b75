/-!
Faults end a session: they are no outcome that a script could observe.
-/

namespace EntityScript

/-- What a session cannot survive. -/
inductive Fault where
  /-- Text was read at an offset that no character begins at. -/
  | outsideText
  /-- A random number without a finite bound was asked for. -/
  | unboundedDraw
  /-- A sum of times does not fit. -/
  | timeOverflow
  deriving DecidableEq, Repr

/-- Why a computation did not come to its end. -/
inductive Halt where
  | fault (f : Fault)
  /-- The allowance of steps was used up. -/
  | outOfFuel
  deriving DecidableEq, Repr

end EntityScript
