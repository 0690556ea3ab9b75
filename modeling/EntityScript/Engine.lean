import EntityScript.Command.Builtin
import EntityScript.Request

/-!
An engine: the rules of a session together with its state. It starts with the commands that every
session has, and a game may add its own.
-/

namespace EntityScript

/-- A session with its rules. -/
structure Engine where
  rules : Rules
  session : Session

namespace Engine

/-- The log line for a command that was added. -/
def registration (name : String) : LogLine := ⟨.trace, .registry, "register " ++ name⟩

/-- The log lines of an engine that starts; `loaded` are suppressions that were read from a file. -/
def startLog (config : Config) (loaded : Option Suppressions) : Array LogLine :=
  let commands := Registry.builtins
  let suppressed := (loaded.map Suppressions.size).getD 0
  (commands.names.map registration).toArray ++
    #[⟨.debug, .registry, "registered " ++ toString commands.size ++ " commands"⟩] ++
    (match loaded with
      | some s => #[⟨.debug, .script, "loaded " ++ toString s.size ++ " suppressions"⟩]
      | none => #[]) ++
    #[⟨.info, .script, "script engine ready: " ++ toString commands.size ++ " commands, " ++
      toString suppressed ++ " suppressions, queue of " ++ toString config.queueCapacity⟩]

/-- A new engine; `loaded` are suppressions that were read from a file. -/
def start (config : Config) (loaded : Option Suppressions) (host : Host) : Engine where
  rules := ⟨config, loaded.getD .empty, .builtins⟩
  session := ⟨.ofConfig config, host, startLog config loaded⟩

/-- Adds a command. -/
def register (c : Command) (e : Engine) : Answer Unit × Engine :=
  match e.rules.registry.add? c with
  | none => (.error (.duplicateCommand (Command.normalize c.name)), e)
  | some registry =>
    let log := e.session.log.push (registration (Command.normalize c.name))
    (.ok (), { rules := { e.rules with registry }, session := { e.session with log } })

/-- Runs an action; the state at a halt is kept. -/
def perform {α : Type} (e : Engine) (act : Rules → Action α) : Except Halt α × Engine :=
  match act e.rules e.session with
  | .ok a session => (.ok a, { e with session })
  | .error halt session => (.error halt, { e with session })

end Engine

end EntityScript
