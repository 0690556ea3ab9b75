import EntityScript.Duration
import EntityScript.Entity.Basic
import EntityScript.Value

/-!
The game around a session. Gameplay commands and system variables that the session does not know are
handed to it. A recording host keeps what it was told and answers from fixed tables; a silent host
answers nothing.
-/

namespace EntityScript

/-- A gameplay command that a script gave. -/
structure HostCommand where
  entity : EntityId
  ident : String
  name : String
  flags : String
  args : List String
  deriving DecidableEq, Repr

/-- What the game answers to a command. -/
inductive HostResponse where
  | done
  | failed
  /-- Done; the rest of the line runs after a time. -/
  | resumeAfter (delay : Duration)
  deriving DecidableEq, Repr

/-- What a recording host answers and what it was told. -/
structure HostRecord where
  answers : List (String × Value) := []
  responses : List (String × HostResponse) := []
  commands : List HostCommand := []
  queries : List String := []
  destroyed : List EntityId := []

/-- The game around a session. -/
inductive Host where
  | silent
  | recording (record : HostRecord)

namespace Host

/-- The record of a host; a silent host has an empty one. -/
def record : Host → HostRecord
  | .silent => {}
  | .recording r => r

/-- Changes the record of a recording host. -/
def modify (f : HostRecord → HostRecord) : Host → Host
  | .silent => .silent
  | .recording r => .recording (f r)

/-- Asks for a system variable. -/
def ask (name : String) (h : Host) : Option Value × Host :=
  (h.record.answers.lookup name, h.modify fun r => { r with queries := r.queries ++ [name] })

/-- Gives a command to the game. -/
def give (c : HostCommand) (h : Host) : HostResponse × Host :=
  ((h.record.responses.lookup c.name).getD .done,
    h.modify fun r => { r with commands := r.commands ++ [c] })

/-- Tells the game that an entity is gone. -/
def noteDestroyed (id : EntityId) (h : Host) : Host :=
  h.modify fun r => { r with destroyed := r.destroyed ++ [id] }

/-- Sets the answer to a system variable. -/
def setAnswer (name : String) (v : Value) (h : Host) : Host :=
  h.modify fun r => { r with answers := (name, v) :: r.answers }

/-- Sets the answer to a command. -/
def setResponse (name : String) (response : HostResponse) (h : Host) : Host :=
  h.modify fun r => { r with responses := (name, response) :: r.responses }

/-- Forgets the commands that were given. -/
def clearCommands (h : Host) : Host := h.modify fun r => { r with commands := [] }

/-- How often a system variable was asked for. -/
def queried (name : String) (h : Host) : Nat := h.record.queries.count name

end Host

end EntityScript
