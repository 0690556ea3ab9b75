import EntityScript.Command.Basic

/-!
Commands about time: timers, which run the rest of a line later, and the stopwatches of an entity.
-/

namespace EntityScript.Command

open Act

/-- Stops every timer of the entity. -/
def stopAll : Act Reply := do
  let id := (← invocation).entity
  let stopped := (← world).timers.countFor id
  onWorld fun w => { w with timers := w.timers.clearFor id }
  debug ("killed " ++ toString stopped ++ " timers")
  return .success

/-- Whether a word behind a bare `timer` names the timer rather than counting its runs. -/
def namesTimer (word : String) : Bool :=
  word ≠ "" && word ≠ "off" && !Decimal.isNumber word && !isReference word

/-- A number that is not below zero. -/
def notBelowZero (x : Float) : Float := if 0 < x then x else 0

/-- Starts a timer for the rest of the line. An empty name stands for the first default name that is
free. -/
def startTimer (name flags first : String) : Act Reply := do
  let count := (notBelowZero (← readFloat first)).toUInt32.toNat
  let amount := notBelowZero (← float)
  let interval := Duration.ofSeconds (if flags.toList.contains 'm' then amount / 1000 else amount)
  match ← skipLine with
  | none =>
    warn "timer without a command"
    return .failed
  | some pos =>
    let inv ← invocation
    let w ← world
    let name := if name = "" then w.timers.defaultName inv.entity else name
    onSession <| Session.startTimer {
      name, owner := inv.entity, script := inv.script, pos, interval, count
      start := w.clock, idle := flags.toList.contains 'i' }
    return .success

/-- Stops a timer, or starts it, told by the first word behind its name and flags. -/
def stopOrStart (name flags first : String) : Act Reply := do
  if first = "off" then
    let id := (← invocation).entity
    if name ≠ "" then onWorld fun w => { w with timers := w.timers.stop id name }
    return .success
  else startTimer name flags first

/-- The timer command with the name that is written behind `timer`; for a bare `timer` the name may
follow as a word of its own. -/
def runTimer (name : String) : Act Reply := do
  if name = "kill_local" then stopAll
  else
    let options ← flags
    let first ← word
    if name = "" && namesTimer first then
      if first = "kill_local" then stopAll
      else
        let options := options ++ (← flags)
        stopOrStart first options (← word)
    else stopOrStart name options first

/-- The stopwatch that a word names, by its number from one. -/
def stopwatchOf? (word : String) : Option Nat :=
  match behind? "timer" word.toList with
  | none => none
  | some digits =>
    (Text.natural? digits).bind fun n => if 1 ≤ n ∧ n ≤ stopwatchCount then some n else none

/-- Starts or stops a stopwatch. -/
def runStopwatch (starts : Bool) : Act Reply := do
  let w ← word
  match stopwatchOf? w with
  | none =>
    warn ("invalid stopwatch '" ++ w ++ "', expected timer1 to timer" ++ toString stopwatchCount)
    return .failed
  | some n =>
    let clock := (← world).clock
    let started := if starts then some clock else none
    if ← onSelf fun e => { e with stopwatches := e.stopwatches.set (n - 1) started } then
      return .success
    else return .failed

/-- The commands about stopwatches. -/
def schedule : List Command := [
  { name := "starttimer", run := runStopwatch true },
  { name := "stoptimer", run := runStopwatch false }]

end EntityScript.Command
