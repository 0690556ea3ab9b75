import EntityScript.Script.Basic
import EntityScript.Event.Name

/-!
The places that a script can be entered at: behind the header of an event and behind a label. Both
are whole words outside remarks, and the first of several wins.
-/

namespace EntityScript.Script

/-- A character that separates words for headers and labels. -/
def isBreak (c : Char) : Bool := c ≤ ' '

/-- The offset behind the first whole-word header that is not in a remark. `before` is the character
before the place, `hidden` tells whether two slashes stand before it on its line. -/
def headerFrom (header : List Char) (before : Option Char) (hidden : Bool) (pos : Nat) :
    List Char → Option Nat
  | [] => none
  | c :: cs =>
    if before.all isBreak && !hidden && header.isPrefixOf (c :: cs) &&
        ((c :: cs).drop header.length).head?.all isBreak then
      some (pos + Text.width header)
    else
      headerFrom header (some c)
        (c ≠ '\n' && (hidden || (before = some '/' && c = '/'))) (pos + c.utf8Size) cs

/-- The offset behind the header of an event. -/
def eventStart? (s : Script) (event : EventName) : Option Nat :=
  match event with
  | .fixed m => headerFrom ("on " ++ m.name).toList none false 0 s.text
  | .named name => headerFrom ("on " ++ name).toList none false 0 s.text
  | .line => none

/-- A word of the text: where it starts and whether two slashes stand before it on its line. -/
structure Run where
  start : Nat
  hidden : Bool
  word : List Char
  deriving DecidableEq, Repr

/-- The words of the text from `pos` on; `current` is the word that is being read. -/
def runsFrom (current : Option Run) (before : Option Char) (hidden : Bool) (pos : Nat) :
    List Char → List Run
  | [] => current.toList
  | c :: cs =>
    let hiddenNext := c ≠ '\n' && (hidden || (before = some '/' && c = '/'))
    if isBreak c then
      current.toList ++ runsFrom none (some c) hiddenNext (pos + c.utf8Size) cs
    else
      let run := current.getD ⟨pos, hidden, []⟩
      runsFrom (some { run with word := run.word ++ [c] }) (some c) hiddenNext (pos + c.utf8Size) cs

/-- The words of a script in order. -/
def runs (s : Script) : List Run := runsFrom none none false 0 s.text

/-- The label that a word sets, with the offset behind it. -/
def Run.label? (r : Run) : Option (String × Nat) :=
  match r.word with
  | '>' :: '>' :: c :: cs =>
    if r.hidden then none else some (String.ofList (c :: cs), r.start + Text.width r.word)
  | _ => none

/-- Every label of a script with the offset behind its first occurrence. -/
def labels (s : Script) : List (String × Nat) :=
  (s.runs.filterMap Run.label?).foldl
    (fun found entry => if (found.lookup entry.1).isSome then found else found ++ [entry]) []

/-- The offset behind the first occurrence of a label. -/
def label? (s : Script) (name : String) : Option Nat :=
  (s.runs.filterMap Run.label?).lookup name

end EntityScript.Script
