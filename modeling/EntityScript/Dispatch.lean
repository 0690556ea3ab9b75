import EntityScript.Command.Schedule

/-!
Dispatches. A dispatch runs the block of one event, or one line, on one entity. It reads a command
word, obeys it and goes on until a command ends it, its block closes, the text ends or the entity is
gone. An event that a script sends to one entity is dispatched inside the dispatch of the sender.
-/

namespace EntityScript

/-- What stays the same while a session runs. -/
structure Rules where
  config : Config
  suppressions : Suppressions
  registry : Registry

/-- What the braces passed so far tell about the place of a dispatch. -/
inductive Brackets where
  /-- So many blocks of the event are open; the dispatch ends with the last of them. -/
  | event (depth : Nat)
  /-- So many blocks were opened since a jump led outside every block. -/
  | nested (depth : Nat)
  /-- A jump led outside every block. -/
  | off
  deriving DecidableEq, Repr

/-- The brackets behind an opening brace. -/
def Brackets.opened : Brackets → Brackets
  | .event depth => .event (depth + 1)
  | .nested depth => .nested (depth + 1)
  | .off => .nested 1

/-- The brackets behind a closing brace. -/
def Brackets.closed : Brackets → Brackets
  | .event depth => .event (depth - 1)
  | .nested depth => if depth = 1 then .off else .nested (depth - 1)
  | .off => .off

/-- The brackets at a place that so many blocks are open at. -/
def Brackets.landed (depth : Nat) : Brackets := if depth = 0 then .off else .event depth

/-- How a dispatch reads on: within one line or across lines, and in which brackets. -/
structure Stance where
  line : Bool
  brackets : Brackets
  deriving DecidableEq, Repr

/-- What follows a command word. -/
inductive Turn where
  | finish (v : Verdict)
  | go (stance : Stance)
  /-- An event is dispatched before the next command word. -/
  | send (s : Send) (stance : Stance)
  deriving DecidableEq, Repr

namespace Act

/-- Logs a command word. -/
def announce (word : String) : Act Unit := do
  let line := (← invocation).script.name ++ " " ++ (← ident) ++ ": " ++ word
  onSession (Session.write .trace .script line)

/-- Whether the entity may give a command. -/
def mayGive (c : Command) : Act Bool := do
  return c.requires.isEmpty || (← self?).any fun e => Capability.meet e.capabilities c.requires

/-- Runs a command. One that the entity may not give is reported and passed over, and a dry run
refuses at one with side effects. -/
def obey (c : Command) (word : String) : Act Reply := do
  if ← mayGive c then
    if (← invocation).dry && !c.harmless then return .finish .refuse else c.run
  else
    warnAt word ("command '" ++ word ++ "' cannot run on this entity")
    discard skipLine
    return .failed

/-- What follows the reply of a command. -/
def answer (stance : Stance) : Reply → Act Turn
  | .success | .failed => return .go stance
  | .finish v => return .finish v
  | .jumped => do
    let depth := (← invocation).script.blockDepth (← get).pos
    return .go ⟨false, .landed depth⟩
  | .send s => return .send s stance

/-- What follows the closing brace of the event: its end, unless the script is known to go on. -/
def closeEvent (stance : Stance) : Act Turn := do
  let inv ← invocation
  if inv.suppressions.resumes inv.script.name (← get).pos then
    debug "suppressed: block end without accept or refuse"
    return .go stance
  else
    warnAt "\x7d" "missing accept or refuse before end of event block"
    return .finish .accept

/-- What follows a word that is no command: labels are passed over and braces are counted. -/
def passWord (stance : Stance) (word : String) : Act Turn := do
  if (behind? ">>" word.toList).isSome then
    discard skipLine
    return .go stance
  else if word = "\x7b" then return .go { stance with brackets := stance.brackets.opened }
  else if word = "\x7d" then
    if stance.brackets = .event 1 then closeEvent stance
    else return .go { stance with brackets := stance.brackets.closed }
  else if word = "on" && stance.brackets = .off then
    warnAt word "ran into another event without accept or refuse"
    return .finish .accept
  else
    warnAt word ("unknown command '" ++ word ++ "'")
    discard skipLine
    return .go stance

/-- What follows a word. -/
def follow (registry : Registry) (stance : Stance) (word : String) : Act Turn := do
  match registry.find? word, behind? "timer" word.toList with
  | some c, _ => answer stance (← obey c word)
  | none, some name =>
    if (← invocation).dry then return .finish .refuse
    else answer stance (← Command.runTimer (String.ofList name))
  | none, none => passWord stance word

/-- Reads a command word and obeys it. Without one the text, or the line, has ended. -/
def turn (registry : Registry) (stance : Stance) : Act Turn := do
  let word ← command (!stance.line)
  if word = "" then
    unless stance.line do warn "missing '\x7d' before end of script"
    return .finish .accept
  else
    announce word
    follow registry stance word

/-- Reads the brace that opens the block of an event; tells whether it was there. -/
def openEvent : Act Bool := do
  let word ← command true
  if word = "\x7b" then return true
  else
    warnAt word ("expected '\x7b' after event header, found '" ++ word ++ "'")
    return false

end Act

/-- A dispatch between two commands. -/
structure Frame where
  invocation : Invocation
  pos : Nat
  calls : List Call := []
  stance : Stance

/-- Runs an act in a frame. -/
def Frame.perform {α : Type} (f : Frame) (act : Act α) : Action (α × Frame) := fun s =>
  match act f.invocation ⟨s, f.pos, f.calls⟩ with
  | .ok a p => .ok (a, { f with pos := p.pos, calls := p.calls }) p.session
  | .error e p => .error e p.session

/-- An event on its way to an entity. -/
structure Delivery where
  sender : Option EntityId := none
  target : EntityId
  event : EventName
  parameters : Parameters := .none
  dry : Bool := false
  deriving DecidableEq, Repr

namespace Rules

/-- Runs a dispatch one level deeper, unless the dispatches are inside one another as deep as they
may be. -/
def nested (rules : Rules) (script : Script) (event : EventName) (act : Action Verdict) :
    Action Verdict := do
  if rules.config.maxDepth ≤ (← get).world.depth then
    modify <| Session.write .error .script ("[" ++ script.name ++ "] " ++ event.shown ++
      ": dispatch nested deeper than " ++ toString rules.config.maxDepth ++ ", aborted")
    return .error
  else
    modify <| Session.onWorld fun w => { w with depth := w.depth + 1 }
    let verdict ← act
    modify <| Session.onWorld fun w => { w with depth := w.depth - 1 }
    return verdict

/-- Dispatches an event to one script; `run` runs the commands of its block. A script without the
event accepts it. -/
def deliverTo (rules : Rules) (run : Frame → Action Verdict) (d : Delivery) (script : Script) :
    Action Verdict := do
  match script.eventStart? d.event with
  | none => return .accept
  | some pos =>
    rules.nested script d.event do
      let frame : Frame := {
        invocation := {
          script, entity := d.target, sender := d.sender, event := d.event
          parameters := d.parameters, dry := d.dry, suppressions := rules.suppressions }
        pos, stance := ⟨false, .event 1⟩ }
      let (opened, frame) ← frame.perform Act.openEvent
      if opened then run frame else return .accept

/-- Dispatches an event to an entity: first to its overriding script and, unless that refuses or ends
the entity, to its class script. -/
def deliverWith (rules : Rules) (run : Frame → Action Verdict) (d : Delivery) : Action Verdict := do
  match (← get).world.entities.get? d.target with
  | none => return .refuse
  | some e =>
    if !e.allows d.event then return .refuse
    else if d.event = .fixed .main && !e.inZone then return .accept
    else
      let verdict ← deliverTo rules run d e.overriding
      if verdict = .refuse || verdict = .destructive ||
          !(← get).world.entities.contains d.target then
        return verdict
      else deliverTo rules run d e.script

/-- Runs the commands of a frame until the dispatch ends. `fuel` bounds the commands of the frame and
of each frame inside it. -/
def run (rules : Rules) : Nat → Frame → Action Verdict
  | 0, _ => throw .outOfFuel
  | fuel + 1, f => do
    let (turn, f) ← f.perform (Act.turn rules.registry f.stance)
    match turn with
    | .finish v => return v
    | .go stance =>
      if (← get).world.entities.contains f.invocation.entity then
        run rules fuel { f with stance }
      else return .destructive
    | .send s stance =>
      discard <| deliverWith rules (run rules fuel) {
        sender := some f.invocation.entity, target := s.target, event := s.event
        parameters := s.parameters }
      if (← get).world.entities.contains f.invocation.entity then
        run rules fuel { f with stance }
      else return .destructive

/-- Dispatches an event to an entity. -/
def deliver (rules : Rules) (fuel : Nat) (d : Delivery) : Action Verdict :=
  deliverWith rules (run rules fuel) d

/-- Runs the line that begins at a place of a script. -/
def runLine (rules : Rules) (fuel : Nat) (script : Script) (entity : EntityId) (pos : Nat)
    (timer : Option String) : Action Verdict := do
  if (← get).world.entities.contains entity then
    rules.nested script .line <| run rules fuel {
      invocation := { script, entity, event := .line, timer, suppressions := rules.suppressions }
      pos, stance := ⟨true, .event 1⟩ }
  else return .refuse

end Rules

end EntityScript
