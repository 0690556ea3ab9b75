import EntityScript.Command.Basic
import EntityScript.Text.Escape

/-!
Gameplay commands. Scripts only spell them: flags and a fixed number of words. The game decides what
they do, and may put off the rest of the line.
-/

namespace EntityScript.Command

open Act

/-- Reads a number of words. -/
def readWords : Nat → Act (List String)
  | 0 => return []
  | n + 1 => do
    let w ← word
    return w :: (← readWords n)

/-- Puts off the rest of the line. -/
def putOff (delay : Duration) : Act Unit := do
  match ← skipLine with
  | none => return
  | some pos =>
    let inv ← invocation
    let w ← world
    onSession <| Session.startTimer {
      name := w.timers.defaultName inv.entity, owner := inv.entity, script := inv.script, pos
      interval := delay, count := 1, start := w.clock, idle := false }

/-- Hands a command with its words to the game. -/
def forward (name : String) (arity : Nat) : Act Reply := do
  let options ← flags
  let args ← readWords arity
  let command : HostCommand :=
    { entity := (← invocation).entity, ident := ← ident, name, flags := options, args }
  onSession <| Session.write .debug .host
    (command.ident ++ " " ++ name ++ " " ++ Text.quotedList args)
  let (response, host) := (← get).session.host.give command
  onSession fun s => { s with host }
  match response with
  | .done => return .success
  | .failed =>
    warn (name ++ " failed")
    return .failed
  | .resumeAfter delay =>
    putOff delay
    return .success

/-- A gameplay command of one word. -/
def gameplayCommand (name : String) (requires : List Capability) : Command :=
  { name, requires, run := forward name 1 }

/-- The gameplay commands. -/
def gameplay : List Command := [
  gameplayCommand "playanim" [],
  gameplayCommand "speak" [],
  gameplayCommand "playsound" [],
  gameplayCommand "behavior" [.npc],
  gameplayCommand "settarget" [.npc],
  gameplayCommand "setspeed" [.npc],
  gameplayCommand "quest" []]

end EntityScript.Command
