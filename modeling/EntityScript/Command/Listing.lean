import EntityScript.Command.Basic

/-!
Commands that log the variables of the entity and of the session.
-/

namespace EntityScript.Command

open Act

/-- The variables of a table, one on a line. -/
def listing (vars : Variables) (scope : Scope) : String :=
  String.join <| vars.entries.map fun v =>
    "\n    " ++ (Variables.keyOf scope v).spelled ++ " = " ++ v.value.asText

/-- Logs the variables of the entity. -/
def showLocals : Act Unit := do
  let name ← ident
  let text := match ← self? with
    | some e =>
      "local variables of " ++ name ++ " (" ++ toString e.locals.size ++ "):" ++
        listing e.locals .local
    | none => name ++ " has no local variables"
  onSession (Session.write .info .script text)

/-- Logs the variables of the session. -/
def showGlobals : Act Unit := do
  let globals := (← world).globals
  onSession <| Session.write .info .script
    ("global variables (" ++ toString globals.size ++ "):" ++ listing globals .global)

/-- A harmless command that always succeeds. -/
def always (name : String) (act : Act Unit) : Command :=
  { name, harmless := true, run := do act; return .success }

/-- The commands that log variables. -/
def listings : List Command := [
  always "showlocals" showLocals,
  always "showglobals" showGlobals,
  always "showvars" (do showGlobals; showLocals)]

end EntityScript.Command
