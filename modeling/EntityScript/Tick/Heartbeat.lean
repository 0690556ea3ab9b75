import EntityScript.Dispatch

/-!
The heartbeat. Each heartbeat sends the main event to the next few live entities, in the order of
their handles and from the first again after the last.
-/

namespace EntityScript.Rules

/-- Sends the main event to the next live entity; tells whether there is one. -/
def beat (rules : Rules) (fuel : Nat) : Action Bool := do
  let w := (← get).world
  match w.entities.nextLive? w.heartbeat with
  | none => return false
  | some id =>
    modify <| Session.onWorld fun w => { w with heartbeat := id.index + 1 }
    let event := ((w.entities.get? id).map Entity.mainEvent).getD (.fixed .main)
    discard <| rules.deliver fuel { target := id, event }
    return true

/-- Sends the main event at most a number of times; gives how often it was sent. -/
def beats (rules : Rules) (fuel : Nat) : Nat → Action Nat
  | 0 => return 0
  | n + 1 => do
    if ← rules.beat fuel then
      let sent ← beats rules fuel n
      return sent + 1
    else return 0

/-- One heartbeat; gives how many entities it reached. -/
def heartbeat (rules : Rules) (fuel : Nat) : Action Nat := do
  rules.beats fuel (min rules.config.heartbeatBatch (← get).world.entities.size)

end EntityScript.Rules
