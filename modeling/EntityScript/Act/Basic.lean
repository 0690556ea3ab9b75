import EntityScript.Event.Parameters
import EntityScript.Script.Statement
import EntityScript.Session
import EntityScript.Suppression

/-!
Acts: what a command does while its script runs. An act sees the dispatch that it belongs to, and it
changes the session, its place in the script and the stack of return points. Its diagnostics name the
place in the script and, behind it, the calls that led there.
-/

namespace EntityScript

/-- A return point of a subroutine. -/
structure Call where
  label : String
  returnPos : Nat
  deriving DecidableEq, Repr

/-- The dispatch that an act belongs to. -/
structure Invocation where
  script : Script
  entity : EntityId
  sender : Option EntityId := none
  event : EventName
  parameters : Parameters := .none
  /-- The timer whose line runs. -/
  timer : Option String := none
  /-- Only commands without side effects run. -/
  dry : Bool := false
  suppressions : Suppressions := .empty

/-- What an act may change. -/
structure Progress where
  session : Session
  pos : Nat
  /-- The return points, the latest first. -/
  calls : List Call

/-- A part of what a command does. -/
abbrev Act := ReaderT Invocation (EStateM Halt Progress)

namespace Act

/-- The dispatch that runs. -/
def invocation : Act Invocation := read

/-- The world. -/
def world : Act World := return (← get).session.world

/-- Changes the session. -/
def onSession (f : Session → Session) : Act Unit :=
  modify fun p => { p with session := f p.session }

/-- Changes the world. -/
def onWorld (f : World → World) : Act Unit := onSession (Session.onWorld f)

/-- Ends the session with a fault. -/
def fault {α : Type} (f : Fault) : Act α := throw (.fault f)

/-- The entity that the script runs for, if it is live. -/
def self? : Act (Option Entity) := return (← world).entities.get? (← invocation).entity

/-- Changes the entity that the script runs for; tells whether it is live. -/
def onSelf (f : Entity → Entity) : Act Bool := do
  let id := (← invocation).entity
  let live := (← world).entities.contains id
  if live then onWorld fun w => { w with entities := w.entities.modify id f }
  return live

/-- The name of the entity that the script runs for. -/
def ident : Act String := return ((← self?).map Entity.ident).getD "unknown"

/-- The entity that a word refers to. -/
def resolve? (word : String) : Act (Option EntityId) :=
  return (← world).entities.resolve? word (← invocation).entity

/-- Moves to an offset; beyond the end of the text there is none. -/
def moveTo (pos : Nat) : Act Unit := do
  let size := (← invocation).script.size
  modify fun p => { p with pos := min pos size }

/-- The place that a diagnostic names. -/
def location (inv : Invocation) (ident : String) (pos : Nat) : String :=
  let (line, column) := inv.script.lineColumn pos
  "[" ++ inv.script.name ++ ":" ++ toString line ++ ":" ++ toString column ++ "] " ++ ident ++
    (inv.timer.elim "" fun timer => " (timer " ++ timer ++ ")")

/-- The calls that led to a place, the latest first. -/
def callTrace (script : Script) (calls : List Call) : String :=
  String.join <| calls.map fun c =>
    let (line, column) := script.lineColumn c.returnPos
    "\n    from >>" ++ c.label ++ " at " ++ toString line ++ ":" ++ toString column

/-- Logs a diagnostic about an offset. -/
def diagnose (level : Level) (traced : Bool) (pos : Nat) (message : String) : Act Unit := do
  let inv ← invocation
  let ident ← ident
  let calls := (← get).calls
  let trace := if traced then callTrace inv.script calls else ""
  onSession <| Session.write level .script (location inv ident pos ++ ": " ++ message ++ trace)

/-- Logs a warning about the current place. -/
def warn (message : String) : Act Unit := do diagnose .warn true (← get).pos message

/-- Logs an error about the current place. -/
def error (message : String) : Act Unit := do diagnose .error true (← get).pos message

/-- Logs a debug line about the current place. -/
def debug (message : String) : Act Unit := do diagnose .debug false (← get).pos message

/-- Logs what reading the text reported. -/
def emit (notes : List Note) : Act Unit := notes.forM fun n => diagnose .warn true n.pos n.message

/-- Logs a diagnostic about a token that ends at the current place, unless it is suppressed. -/
def diagnoseToken (level : Level) (token message : String) : Act Unit := do
  let inv ← invocation
  let pos := (← get).pos
  if inv.suppressions.covers inv.script.name pos token then
    diagnose .debug false pos ("suppressed: " ++ message)
  else diagnose level true pos message

/-- Logs a warning about a token. -/
def warnAt (token message : String) : Act Unit := diagnoseToken .warn token message

/-- Logs an error about a token. -/
def errorAt (token message : String) : Act Unit := diagnoseToken .error token message

end Act

end EntityScript
