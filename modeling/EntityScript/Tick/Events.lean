import EntityScript.Dispatch

/-!
The drain of the event queue. It visits every slot once, in order, so an event that is queued during
the drain is delivered in the same drain only if it took a later slot.
-/

namespace EntityScript.Rules

/-- Changes the event queue. -/
def onQueue (f : EventQueue → EventQueue) : Action Unit :=
  modify <| Session.onWorld fun w => { w with queue := f w.queue }

/-- Visits a slot; tells whether its event was delivered. An event for an entity that is gone is
dropped, and a sender that is gone is left out. -/
def visitSlot (rules : Rules) (fuel : Nat) (i : Nat) : Action Bool := do
  let w := (← get).world
  match w.queue.slot? i with
  | none => return false
  | some p =>
    let e := p.event
    if w.entities.contains e.target then
      let sender := e.sender.filter w.entities.contains
      discard <| rules.deliver fuel
        { sender, target := e.target, event := e.event, parameters := e.parameters }
      onQueue (·.release i p.number)
      return true
    else
      modify <| Session.write .trace .queue
        ("skipped " ++ e.event.shown ++ " for destroyed " ++ e.target.shown)
      onQueue (·.release i p.number)
      return false

/-- Visits slots until `limit` events in all were delivered; `delivered` counts those before. -/
def drainSlots (rules : Rules) (fuel limit : Nat) (delivered : Nat) : List Nat → Action Nat
  | [] => return delivered
  | i :: rest => do
    if ← rules.visitSlot fuel i then
      if 0 < limit && limit ≤ delivered + 1 then return delivered + 1
      else drainSlots rules fuel limit (delivered + 1) rest
    else drainSlots rules fuel limit delivered rest

/-- Delivers queued events, at most `limit` of them unless that is zero; gives their number. -/
def drain (rules : Rules) (fuel limit : Nat) : Action Nat := do
  rules.drainSlots fuel limit 0 (List.range (← get).world.queue.capacity)

end EntityScript.Rules
