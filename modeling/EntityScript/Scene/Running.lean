import EntityScript.Engine
import EntityScript.Scene.Definition
import EntityScript.Scene.Path

/-!
Running scenes. A scene is started in a new engine, its entities are initialized in order, and then it
runs tick by tick. Before each tick, and once more behind the last, the events of that tick are
delivered.
-/

namespace EntityScript.Scene

/-- Why a scene cannot be started. -/
inductive SceneError where
  | unreadable (path : String)
  | malformedScene
  | malformedSuppressions
  | unknownFlag (className flag : String)
  | ambiguousScript (className : String)
  | refused (e : RequestError)
  deriving DecidableEq, Repr

/-- The reason in words. -/
def SceneError.message : SceneError → String
  | .unreadable path => "IO error: cannot read " ++ path
  | .malformedScene => "Parse error: the scene is malformed"
  | .malformedSuppressions => "Script error: TOML error: the suppressions are malformed"
  | .unknownFlag className flag => "Unknown entity flag '" ++ flag ++ "' on " ++ className
  | .ambiguousScript className =>
    "Entity " ++ className ++ " has both a script file and inline source"
  | .refused e => "Script error: " ++ e.message

/-- A scene that was started. -/
structure Running where
  engine : Engine
  /-- The entities that the scene began with. -/
  entities : List EntityId
  /-- The events of the scene, ordered by tick. -/
  events : List EventDefinition
  /-- How many ticks have run. -/
  ticks : Nat

/-- Where the files of a scene are found. -/
structure Library where
  /-- The directory that the paths of the scene begin at. -/
  base : String
  /-- The text of a file, if it can be read. -/
  read : String → Option String

namespace Library

/-- The text of a file of the scene. -/
def text (l : Library) (path : String) : Except SceneError String :=
  match l.read (joinPath l.base path) with
  | some text => .ok text
  | none => .error (.unreadable path)

/-- The script in a file, named after the file. -/
def script (l : Library) (path : String) : Except SceneError Script := do
  return .ofRaw (fileStem path) (← l.text path)

/-- The suppressions in a file. -/
def suppressions (l : Library) (path : String) : Except SceneError Suppressions := do
  match Suppressions.ofText? (← l.text path) with
  | some s => return s
  | none => throw .malformedSuppressions

end Library

namespace EntityDefinition

/-- The capabilities that the flags name. -/
def capabilities (d : EntityDefinition) : Except SceneError (List Capability) :=
  d.flags.mapM fun flag =>
    match Capability.ofName? flag with
    | some c => .ok c
    | none => .error (.unknownFlag d.className flag)

/-- The class script, from a file or from the definition itself. -/
def classScript (d : EntityDefinition) (l : Library) : Except SceneError (Option Script) :=
  match d.scriptFile, d.source with
  | some _, some _ => .error (.ambiguousScript d.className)
  | some path, none => some <$> l.script path
  | none, some text => .ok (some (.ofRaw d.className text))
  | none, none => .ok none

/-- The blueprint of the entity. -/
def blueprint (d : EntityDefinition) (l : Library) : Except SceneError Blueprint := do
  let capabilities ← d.capabilities
  let script ← d.classScript l
  let overriding ← d.overridingFile.mapM l.script
  return { className := d.className, capabilities, groups := d.groups, types := d.types,
           items := d.items, position := d.position, inZone := d.inZone, script, overriding }

end EntityDefinition

/-- Adds an entity of a scene. -/
def spawnInto (l : Library) (d : EntityDefinition) (s : Session) :
    Except SceneError (EntityId × Session) := do
  let (id, s) := s.spawn (← d.blueprint l)
  return (id, s.write .debug .runner ("Spawned " ++ id.shown ++ " from class " ++ d.className))

/-- Adds the entities of a scene in order. -/
def spawnAll (l : Library) :
    List EntityDefinition → Session → Except SceneError (List EntityId × Session)
  | [], s => .ok ([], s)
  | d :: ds, s => do
    let (id, s) ← spawnInto l d s
    let (ids, s) ← spawnAll l ds s
    return (id :: ids, s)

/-- Writes the global variables of a scene. -/
def setGlobals : List (String × Value) → World → Except SceneError World
  | [], w => .ok w
  | (name, v) :: rest, w =>
    match w.setGlobal name v with
    | .ok w => setGlobals rest w
    | .error e => .error (.refused e)

/-- Puts an event behind those of the same or an earlier tick. -/
def insertEvent (e : EventDefinition) : List EventDefinition → List EventDefinition
  | [] => [e]
  | d :: ds => if e.tick < d.tick then e :: d :: ds else d :: insertEvent e ds

/-- The events ordered by tick; those of one tick keep their order. -/
def orderEvents (events : List EventDefinition) : List EventDefinition :=
  events.foldl (fun ordered e => insertEvent e ordered) []

/-- Starts a scene. -/
def Definition.start (d : Definition) (l : Library) (host : Host) : Except SceneError Running := do
  let loaded ← d.config.suppressionFile.mapM l.suppressions
  let engine := Engine.start d.config loaded host
  let world ← setGlobals d.globals engine.session.world
  let (entities, session) ← spawnAll l d.entities { engine.session with world }
  return { engine := { engine with session }, entities, events := orderEvents d.events, ticks := 0 }

/-- A log line of a tick. -/
def note (level : Level) (tick : Nat) (message : String) : Action Unit :=
  modify (Session.write level .runner ("Tick " ++ toString tick ++ ": " ++ message))

/-- Delivers or queues an event of a scene. -/
def deliverEvent (rules : Rules) (fuel tick : Nat) (e : EventDefinition) : Action Unit := do
  let entities := (← get).world.entities
  match entities.find? e.target with
  | none => note .warn tick ("no entity named " ++ e.target ++ " for event " ++ e.event)
  | some target =>
    let sender := e.sender.bind entities.find?
    let event := EventName.parse e.event
    let parameters := Parameters.parse e.parameters
    if e.queued then
      unless ← Rules.queue { sender, target, event, parameters } do
        note .warn tick ("event queue full, dropped " ++ e.event)
    else
      let verdict ← rules.deliver fuel { sender, target, event, parameters }
      note .info tick (e.event ++ " -> " ++ e.target ++ " = " ++ verdict.shown)

/-- Delivers the events of a tick. -/
def deliverTick (rules : Rules) (fuel : Nat) (events : List EventDefinition) (tick : Nat) :
    Action Unit :=
  (events.filter (·.tick = tick)).forM (deliverEvent rules fuel tick)

/-- Runs a number of ticks from a tick on. -/
def runTicks (rules : Rules) (fuel : Nat) (events : List EventDefinition) (dt : Duration) :
    Nat → Nat → Action Unit
  | 0, tick => deliverTick rules fuel events tick
  | n + 1, tick => do
    deliverTick rules fuel events tick
    rules.tick fuel dt
    runTicks rules fuel events dt n (tick + 1)

namespace Running

/-- Initializes the entities that the scene began with. -/
def init (r : Running) (fuel : Nat) : Except Halt Running :=
  match r.engine.perform fun rules => rules.initEach fuel r.entities with
  | (.ok (), engine) => .ok { r with engine }
  | (.error halt, _) => .error halt

/-- Runs a number of ticks. -/
def run (r : Running) (fuel n : Nat) (dt : Duration) : Except Halt Running :=
  match r.engine.perform fun rules => runTicks rules fuel r.events dt n r.ticks with
  | (.ok (), engine) => .ok { r with engine, ticks := r.ticks + n }
  | (.error halt, _) => .error halt

end Running

end EntityScript.Scene
