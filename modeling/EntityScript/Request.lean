import EntityScript.Script.Normal
import EntityScript.Tick

/-!
What a game asks of a running session. A request about an entity that does not exist, or about a
name that no variable can have, is refused with a reason.
-/

namespace EntityScript

/-- Why a request is refused. -/
inductive RequestError where
  | duplicateCommand (name : String)
  | unknownEntity (id : EntityId)
  | invalidVariable (name : String)
  deriving DecidableEq, Repr

/-- The reason in words. -/
def RequestError.message : RequestError → String
  | .duplicateCommand name => "Command already registered: " ++ name
  | .unknownEntity id => "Unknown entity " ++ id.shown
  | .invalidVariable name => "Invalid variable name: " ++ name

/-- What a refusable request gives. -/
abbrev Answer (α : Type) := Except RequestError α

/-- The key of a variable of a scope. -/
def scopedKey? (scope : Scope) (name : String) : Option VarKey :=
  (VarKey.parse? name).filter (·.scope = scope)

/-- The name that a script of the console is shown under. -/
def consoleName : String := "console"

namespace World

/-- The value of a global variable. -/
def global? (name : String) (w : World) : Option Value :=
  (scopedKey? .global name).map fun key => w.globals.value key.type key.name

/-- Writes a global variable. -/
def setGlobal (name : String) (v : Value) (w : World) : Answer World :=
  match scopedKey? .global name with
  | none => .error (.invalidVariable name)
  | some key => .ok { w with globals := w.globals.setKey key v }

/-- The value of a local variable of a live entity. -/
def local? (id : EntityId) (name : String) (w : World) : Option Value := do
  let key ← scopedKey? .local name
  let e ← w.entities.get? id
  return e.locals.value key.type key.name

/-- Writes a local variable. -/
def setLocal (id : EntityId) (name : String) (v : Value) (w : World) : Answer World :=
  match scopedKey? .local name with
  | none => .error (.invalidVariable name)
  | some key =>
    if w.entities.contains id then
      .ok { w with entities := w.entities.modify id fun e => { e with locals := e.locals.setKey key v } }
    else .error (.unknownEntity id)

/-- Forgets all script state. The clock, the random numbers, the numbers of entities and the count of
dropped events go on. -/
def reset (w : World) : World :=
  { w with
    globals := .empty, timers := .empty, queue := w.queue.clear, heartbeat := 0
    entities := w.entities.modifyAll Entity.reset }

end World

namespace Session

/-- Takes an entity out of the game. -/
def dismiss (id : EntityId) (s : Session) : Answer Unit × Session :=
  let (existed, s) := s.destroy id
  (if existed then .ok () else .error (.unknownEntity id), s)

/-- Writes a global variable. -/
def setGlobal (name : String) (v : Value) (s : Session) : Answer Unit × Session :=
  match s.world.setGlobal name v with
  | .ok world => (.ok (), { s with world })
  | .error e => (.error e, s)

/-- Writes a local variable. -/
def setLocal (id : EntityId) (name : String) (v : Value) (s : Session) : Answer Unit × Session :=
  match s.world.setLocal id name v with
  | .ok world => (.ok (), { s with world })
  | .error e => (.error e, s)

end Session

namespace Rules

/-- Runs an action about a live entity. -/
def about {α : Type} (id : EntityId) (act : Action α) : Action (Answer α) := do
  if (← get).world.entities.contains id then return .ok (← act)
  else return .error (.unknownEntity id)

/-- Dispatches an event from the game. -/
def send (rules : Rules) (fuel : Nat) (d : Delivery) : Action (Answer Verdict) :=
  about d.target (rules.deliver fuel d)

/-- Tells, without side effects, what an event would come to. -/
def peek (rules : Rules) (fuel : Nat) (target : EntityId) (event : EventName) :
    Action (Answer Verdict) :=
  rules.send fuel { target, event, dry := true }

/-- Queues an event; tells whether there was room. -/
def queue (e : QueuedEvent) : Action Bool := modifyGet (Session.enqueue e)

/-- Sends the two events that begin the life of an entity, and gives the verdict of the first. -/
def initEntity (rules : Rules) (fuel : Nat) (id : EntityId) : Action (Answer Verdict) :=
  about id do
    let verdict ← rules.deliver fuel { target := id, event := .fixed .init }
    if (← get).world.entities.contains id then
      discard <| rules.deliver fuel { target := id, event := .fixed .initEnd }
    return verdict

/-- Runs a line of text on an entity. -/
def execute (rules : Rules) (fuel : Nat) (id : EntityId) (text : String) :
    Action (Answer Verdict) :=
  about id do
    let script := Script.ofRaw consoleName text
    modify (Session.noteScript script)
    rules.runLine fuel script id 0 none

/-- Initializes the listed entities as far as they are live. -/
def initEach (rules : Rules) (fuel : Nat) (ids : List EntityId) : Action Unit :=
  ids.forM fun id => discard (rules.initEntity fuel id)

/-- Forgets all script state and, if asked to, initializes every entity again. -/
def reset (rules : Rules) (fuel : Nat) (again : Bool) : Action Unit := do
  modify (Session.onWorld World.reset)
  modify (Session.write .info .script "script state reset")
  if again then rules.initEach fuel (← get).world.entities.ids

end Rules

end EntityScript
