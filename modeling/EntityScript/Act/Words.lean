import EntityScript.Act.Basic

/-!
Reading at the current place. Each of these moves the place behind what it read and logs what was
wrong with the text.
-/

namespace EntityScript.Act

/-- The characters from the current place on. -/
def rest : Act (List Char) := return (← invocation).script.rest (← get).pos

/-- Moves to where a scan stopped, logs its notes and gives its value. -/
def take {α : Type} (scan : Scan α) : Act α := do
  emit scan.notes
  modify fun p => { p with pos := scan.stop.pos }
  return scan.value

/-- Moves over gaps; `lines` allows newlines and `warned` reports the first of them. -/
def skipGaps (lines warned : Bool) : Act Unit := do
  let (stop, crossed) := Script.skipGaps lines false (← get).pos (← rest)
  let notes := if warned then crossed.toList.map (⟨·, "unexpected newline"⟩) else []
  take ⟨(), stop, notes⟩

/-- Whether anything is left on the line. -/
def hasMore : Act Bool := do
  skipGaps false false
  return (← rest).head?.any (· ≠ '\n')

/-- Reads a command word; `lines` allows it to stand on a later line. -/
def command (lines : Bool) : Act String := do
  match (← invocation).script.commandAt lines (← get).pos with
  | .ok scan => return String.ofList (← take scan)
  | .error f => fault f

/-- Reads a word as it stands. -/
def rawWord : Act String := do
  return String.ofList (← take (Script.nextWord (← get).pos (← rest)))

/-- Moves to the end of the line and gives the offset at which something was left on it. -/
def skipLine : Act (Option Nat) := do
  if ← hasMore then
    let start := (← get).pos
    take ⟨(), Script.lineEnd start (← rest), []⟩
    return some start
  else return none

/-- Reads flags: letters behind a minus. Without them nothing is read. -/
def flags : Act String := do
  skipGaps false false
  match ← rest with
  | '-' :: c :: _ =>
    if c.isAlpha then return String.ofList ((← rawWord).toList.drop 1) else return ""
  | _ => return ""

/-- The next command word, without moving. -/
def peekCommand : Act String := do
  let start := (← get).pos
  let word ← command true
  modify fun p => { p with pos := start }
  return word

/-- Moves behind the next command word if it is the given one. -/
def consume (word : String) : Act Bool := do
  let start := (← get).pos
  if (← command true) = word then return true
  else
    modify fun p => { p with pos := start }
    return false

/-- Moves over a statement. -/
def skipStatement : Act Unit := do
  let inv ← invocation
  let pos := (← get).pos
  match inv.script.skipStatement (inv.script.size + 1) pos with
  | .ok (stop, notes) =>
    emit notes
    modify fun p => { p with pos := stop }
  | .error f => fault f

end EntityScript.Act
