import EntityScript.Command.Basic

/-!
Commands that direct the flow of a script: verdicts, conditional statements, jumps, subroutines and
statements left to chance.
-/

namespace EntityScript.Command

open Act

/-- Passes over the body of a conditional statement, up to what its `else` governs. -/
def skipBody : Act Unit := do
  skipStatement
  discard <| consume "else"

/-- Runs the body if the condition holds, otherwise what follows its `else`. A condition that cannot
be evaluated counts as one that does not hold. -/
def runIf : Act Reply := do
  match ← condition with
  | some true => return .success
  | some false =>
    skipBody
    return .success
  | none =>
    skipBody
    return .failed

/-- Passes over the branch of an `else` that was reached from the body before it. -/
def runElse : Act Reply := do
  skipStatement
  return .success

/-- Goes on behind a label. -/
def runJump (subroutine : Bool) : Act Reply := do
  let label ← word
  if ← jump label subroutine then return .jumped
  else
    errorAt label ((if subroutine then "gosub" else "goto") ++ ": unknown label '" ++ label ++ "'")
    return .finish .error

/-- Goes on at the latest return point. -/
def runReturn : Act Reply := do
  if ← comeBack then return .jumped
  else
    error "return without gosub"
    return .finish .error

/-- Passes over the next statement unless a chance in percent comes up. -/
def runRandom : Act Reply := do
  let chance ← float
  let drawn ← draw 100
  if chance < drawn then skipStatement
  return .success

/-- The commands that direct the flow of a script. -/
def flow : List Command := [
  { name := "accept", harmless := true, run := return .finish .accept },
  { name := "refuse", harmless := true, run := return .finish .refuse },
  { name := "if", harmless := true, run := runIf },
  { name := "else", harmless := true, run := runElse },
  { name := "goto", harmless := true, run := runJump false },
  { name := "gosub", harmless := true, run := runJump true },
  { name := "return", harmless := true, run := runReturn },
  { name := "random", run := runRandom }]

end EntityScript.Command
