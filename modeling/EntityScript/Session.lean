import EntityScript.Config
import EntityScript.Entity.Table
import EntityScript.Fault
import EntityScript.Host
import EntityScript.Log
import EntityScript.Queue
import EntityScript.Random
import EntityScript.Script.Landmark
import EntityScript.Timer

/-!
The state of a session: the world that scripts observe and change, the game around it, and the lines
logged so far. An action changes the state and may halt; the state at the halt is kept.
-/

namespace EntityScript

/-- Everything that scripts can observe or change. -/
structure World where
  globals : Variables
  entities : EntityTable
  timers : TimerSet
  queue : EventQueue
  /-- The game time since the session began. -/
  clock : Duration
  random : Generator
  /-- The handle index at which the next heartbeat begins. -/
  heartbeat : Nat
  /-- How many dispatches are inside one another. -/
  depth : Nat

/-- The world of a new session. -/
def World.ofConfig (c : Config) : World where
  globals := .empty
  entities := .empty
  timers := .empty
  queue := .ofCapacity c.queueCapacity
  clock := .zero
  random := ⟨c.seed.getD 0, 0⟩
  heartbeat := 0
  depth := 0

/-- The state of a session. -/
structure Session where
  world : World
  host : Host
  log : Array LogLine

/-- A computation that changes the state of a session. -/
abbrev Action := EStateM Halt Session

/-- What a new entity is made from. -/
structure Blueprint where
  className : String
  capabilities : List Capability := []
  groups : List String := []
  types : List String := []
  items : List String := []
  position : Point := ⟨0, 0, 0⟩
  inZone : Bool := true
  script : Option Script := none
  overriding : Option Script := none

/-- The entity that a blueprint describes. -/
def Blueprint.entity (b : Blueprint) : Entity :=
  let e := { Entity.ofClass b.className with
    capabilities := b.capabilities, position := b.position, inZone := b.inZone
    script := b.script.getD .empty, overriding := b.overriding.getD .empty }
  let e := b.groups.foldl Entity.withGroup e
  let e := b.types.foldl Entity.withType e
  b.items.foldl Entity.withItem e

namespace Session

/-- Adds a line to the log. -/
def write (level : Level) (topic : Topic) (message : String) (s : Session) : Session :=
  { s with log := s.log.push ⟨level, topic, message⟩ }

/-- Changes the world. -/
def onWorld (f : World → World) (s : Session) : Session := { s with world := f s.world }

/-- Notes that a script was read. -/
def noteScript (script : Script) (s : Session) : Session :=
  s.write .trace .script ("loaded script " ++ script.name ++ " (" ++ toString script.size ++
    " bytes, " ++ toString script.labels.length ++ " labels)")

/-- Adds an entity. -/
def spawn (b : Blueprint) (s : Session) : EntityId × Session :=
  let s := [some .empty, some .empty, b.script, b.overriding].foldl
    (fun s script => script.elim s fun script => noteScript script s) s
  let (id, entities) := s.world.entities.spawn b.entity
  let s := s.onWorld ({ · with entities })
  (id, s.write .debug .script ("spawned " ++ entities.identOf (some id) ++ " as " ++ id.shown))

/-- Starts a timer. -/
def startTimer (t : Timer) (s : Session) : Session :=
  let s := s.write .trace .timer ("start " ++ t.name ++ " on " ++ t.owner.shown ++ " (" ++
    t.interval.shown ++ " x" ++ toString t.count ++ ")")
  s.onWorld fun w => { w with timers := w.timers.start t }

/-- Queues an event; tells whether there was room. -/
def enqueue (e : QueuedEvent) (s : Session) : Bool × Session :=
  let (taken, queue) := s.world.queue.push e
  let s := s.onWorld ({ · with queue })
  (taken, if taken then s else
    s.write .debug .queue ("queue full, dropped " ++ e.event.shown ++ " for " ++ e.target.shown))

/-- Removes an entity with its timers and its queued events; tells whether it existed. -/
def destroy (id : EntityId) (s : Session) : Bool × Session :=
  match s.world.entities.get? id with
  | none => (false, s)
  | some e =>
    let timers := s.world.timers.countFor id
    let s := s.onWorld fun w => { w with
      entities := w.entities.remove id, timers := w.timers.clearFor id
      queue := w.queue.clearFor id }
    let s := s.write .debug .script
      ("destroyed " ++ e.ident ++ " (" ++ toString timers ++ " timers cleared)")
    (true, { s with host := s.host.noteDestroyed id })

end Session

/-- Draws a random number from zero up to a bound; nothing is drawn for a bound that is not above
zero. -/
def World.draw (bound : Float) (w : World) : Except Fault (Float × World) :=
  if bound ≤ 0 then .ok (0, w)
  else if bound.isFinite then
    let (x, random) := w.random.below bound 1000
    .ok (x, { w with random })
  else .error .unboundedDraw

end EntityScript
