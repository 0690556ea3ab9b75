import EntityScript.Condition
import EntityScript.Fault

/-!
Passing over statements. A block is passed by counting its braces, an `if` with its condition, its
body and an `else` branch, and anything else with the rest of its line.
-/

namespace EntityScript.Script

/-- Passes the rest of a block in which `depth` blocks are open, and tells whether the last was
closed. A quoted string that the text ends in counts one byte more than the text has. -/
def closeBlock (zone : Zone) (depth pos : Nat) : List Char → Nat × Bool
  | [] => (if zone = .quoted then pos + 1 else pos, false)
  | c :: cs =>
    let next := zone.after c cs.head?
    if zone = .plain && c = '\x7b' then closeBlock next (depth + 1) (pos + 1) cs
    else if zone = .plain && c = '\x7d' then
      if depth ≤ 1 then (pos + 1, true) else closeBlock next (depth - 1) (pos + 1) cs
    else closeBlock next depth (pos + c.utf8Size) cs

/-- The command word at or after an offset. Beyond the end of the text there is nothing to read. -/
def commandAt (s : Script) (lines : Bool) (pos : Nat) : Except Fault (Scan (List Char)) :=
  match s.from? pos with
  | none => .error .outsideText
  | some cs =>
    let start := (skipGaps lines false pos cs).1
    .ok (commandWord start.pos start.rest)

/-- Passes over one statement: the offset behind it and what was reported, with at most `fuel`
statements inside one another. -/
def skipStatement (s : Script) : Nat → Nat → Except Fault (Nat × List Note)
  | 0, pos => .ok (pos, [])
  | fuel + 1, pos =>
    let start := (skipGaps true false pos (s.rest pos)).1
    match start.rest with
    | [] => .ok (start.pos, [⟨start.pos, "expected block, found end of script"⟩])
    | c :: cs =>
      if c = '\x7b' then
        let (stop, closed) := closeBlock .plain 1 (start.pos + 1) cs
        .ok (stop, if closed then [] else [⟨stop, "missing '\x7d' before end of script"⟩])
      else
        let word := commandWord start.pos start.rest
        if word.value = ['i', 'f'] then do
          let (condition, body) := Condition.read word.stop
          let (afterBody, bodyNotes) ← skipStatement s fuel body.pos
          let follower ← s.commandAt true afterBody
          let notes := word.notes ++ condition.notes ++ bodyNotes ++ follower.notes
          if follower.value = "else".toList then
            let (stop, elseNotes) ← skipStatement s fuel follower.stop.pos
            .ok (stop, notes ++ elseNotes)
          else .ok (afterBody, notes)
        else .ok ((lineEnd start.pos start.rest).pos, word.notes)

end EntityScript.Script
