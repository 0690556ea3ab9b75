import EntityScript.Command.Basic

/-!
Commands about events. An event for one entity is dispatched right away; an event for a group, or for
all entities within a radius, is queued.
-/

namespace EntityScript

/-- Who receives a broadcast. -/
inductive Audience where
  | group (name : String)
  | radius (r : Float)
  deriving Repr

/-- Whether an entity belongs to the audience of a sender. -/
def Audience.includes (a : Audience) (sender : Option Entity) (e : Entity) : Bool :=
  match a with
  | .group name => e.groups.contains name
  | .radius r => sender.any fun s => s.position.distance e.position ≤ r

namespace Command

open Act

/-- The kinds of entity that flags restrict a broadcast to. -/
def kindsOf (flags : String) : List Capability :=
  flags.toList.filterMap fun c =>
    match c with
    | 'n' => some .npc
    | 'i' => some .item
    | 'f' => some .fix
    | 'c' => some .camera
    | 'm' => some .marker
    | _ => none

/-- Reads the parameters of an event, if anything is left on the line. -/
def parameters : Act Parameters := do
  if ← hasMore then return .parse (← word) else return .none

/-- Reads the audience that flags announce. A radius that is no number is taken as a group. -/
def audience? (flags : String) : Act (Option Audience) := do
  if flags.toList.contains 'g' then return some (.group (← word))
  else if flags.toList.contains 'r' then
    let w ← word
    if Decimal.isNumber w || isReference w then return some (.radius (← readFloat w))
    else
      debug ("sendevent -r with group '" ++ w ++ "'")
      return some (.group w)
  else return none

/-- The live entities other than the sender that a broadcast reaches, in the order of their
handles. -/
def receivers (entities : EntityTable) (this : EntityId) (kinds : List Capability)
    (audience : Audience) : List EntityId :=
  let sender := entities.get? this
  (entities.members.filter fun m =>
    m.1 ≠ this && (kinds.isEmpty || Capability.meet m.2.capabilities kinds) &&
      audience.includes sender m.2).map Prod.fst

/-- Queues an event for each of the listed entities; tells for how many there was room. -/
def enqueueAll (this : EntityId) (event : EventName) (parameters : Parameters) :
    List EntityId → Session → Nat × Session
  | [], s => (0, s)
  | target :: rest, s =>
    let (taken, s) := s.enqueue ⟨some this, target, event, parameters⟩
    let (queued, s) := enqueueAll this event parameters rest s
    (if taken then queued + 1 else queued, s)

/-- Sends an event. -/
def runSend : Act Reply := do
  let options ← flags
  let audience ← audience? options
  let event := EventName.parse (← word)
  match audience with
  | none =>
    let target ← word
    let parameters ← parameters
    match ← resolve? target with
    | none =>
      warnAt target ("sendevent: unknown target '" ++ target ++ "'")
      return .failed
    | some id => return .send ⟨id, event, parameters⟩
  | some audience =>
    let parameters ← parameters
    let this := (← invocation).entity
    let targets := receivers (← world).entities this (kindsOf options) audience
    let (queued, s) := enqueueAll this event parameters targets (← get).session
    onSession fun _ => s
    debug ("sendevent " ++ event.shown ++ " queued for " ++ toString queued ++ " entities")
    return .success

/-- Enables or disables a fixed event of the entity. -/
def runSetEvent : Act Reply := do
  let name ← word
  let enabled ← bool
  match (EventName.parse name).message? with
  | none =>
    warn ("setevent: '" ++ name ++ "' is not a fixed event")
    return .failed
  | some m => if ← onSelf (·.setEnabled m enabled) then return .success else return .failed

/-- Sets the event that heartbeats send to the entity. -/
def runSetMain : Act Reply := do
  let name ← word
  if name = "" then
    warn "setmainevent: missing event name"
    return .failed
  else if ← onSelf fun e => { e with mainEvent := .parse name } then return .success
  else return .failed

/-- The commands about events. -/
def messaging : List Command := [
  { name := "sendevent", run := runSend },
  { name := "setevent", run := runSetEvent },
  { name := "setmainevent", run := runSetMain }]

end Command

end EntityScript
