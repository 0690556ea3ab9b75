import EntityScript.Dispatch

/-!
The sweep of the timers. It visits the slots in order, those of timers started during the sweep
included, and runs the line of each timer that is due.
-/

namespace EntityScript.Rules

/-- Changes what a slot of the timers holds. -/
def setTimer (i : Nat) (t : Option Timer) : Action Unit :=
  modify <| Session.onWorld fun w => { w with timers := w.timers.setSlot i t }

/-- Gives a time that fits. -/
def fitting {α : Type} : Option α → Action α
  | some a => return a
  | none => throw (.fault .timeOverflow)

/-- Moves a timer on, or takes it out of its slot after its last run, and runs its line. -/
def fire (rules : Rules) (fuel : Nat) (now : Duration) (i : Nat) (t : Timer) : Action Unit := do
  if t.count = 1 then setTimer i none
  else setTimer i (some (← fitting (t.advanced? now)))
  modify <| Session.write .trace .timer ("fire " ++ t.name ++ " on " ++ t.owner.shown)
  discard <| rules.runLine fuel t.script t.owner t.pos (some t.name)

/-- Visits a slot. A timer without a live owner is taken out, and an idle timer of an owner outside
the active zone is moved on without running. -/
def visitTimer (rules : Rules) (fuel : Nat) (now : Duration) (i : Nat) : Action Unit := do
  let w := (← get).world
  match w.timers.slot? i with
  | none => return
  | some t =>
    let due ← fitting t.due?
    if due.nanos ≤ now.nanos then
      match w.entities.get? t.owner with
      | none => setTimer i none
      | some owner =>
        if t.idle && !owner.inZone then setTimer i (some (← fitting (t.caughtUp? now)))
        else rules.fire fuel now i t

/-- Visits at most `steps` slots from the `i`-th on; without steps left the sweep has no end. -/
def sweepFrom (rules : Rules) (fuel : Nat) (now : Duration) : Nat → Nat → Action Unit
  | 0, _ => throw .outOfFuel
  | steps + 1, i => do
    if i < (← get).world.timers.slots.size then
      rules.visitTimer fuel now i
      sweepFrom rules fuel now steps (i + 1)

/-- Runs the timers that are due. -/
def sweep (rules : Rules) (fuel : Nat) : Action Unit := do
  rules.sweepFrom fuel (← get).world.clock fuel 0

end EntityScript.Rules
