import EntityScript.Tick.Events
import EntityScript.Tick.Heartbeat
import EntityScript.Tick.Timers

/-!
One tick of the game: time passes, due timers run, queued events are delivered and the next entities
get their heartbeat.
-/

namespace EntityScript.Rules

/-- Lets time pass and does the work of one frame. -/
def tick (rules : Rules) (fuel : Nat) (dt : Duration) : Action Unit := do
  let clock ← fitting ((← get).world.clock.add? dt)
  modify <| Session.onWorld fun w => { w with clock }
  rules.sweep fuel
  discard <| rules.drain fuel rules.config.drainLimit
  discard <| rules.heartbeat fuel

end EntityScript.Rules
