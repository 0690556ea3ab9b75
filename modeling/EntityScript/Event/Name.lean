import EntityScript.Event.Message
import EntityScript.Text.Blank
import EntityScript.Text.LetterCase

/-!
Event names. A name as scripts or the game write it may carry the word `on` in front, blanks around
it and capital letters; all of that is dropped before it is compared with the fixed events.
-/

namespace EntityScript

/-- What a dispatch is about: a fixed event, an event known by its name only, or a single line that
runs on its own. -/
inductive EventName where
  | fixed (m : Message)
  | named (name : String)
  | line
  deriving DecidableEq, Repr

namespace EventName

/-- The characters of a written name after an `on` in front of it. -/
def withoutOn : List Char → List Char
  | 'o' :: 'n' :: ' ' :: cs => cs
  | cs => cs

/-- The event that a written name denotes. -/
def parse (s : String) : EventName :=
  let name := Text.lower (String.ofList (Text.trim (withoutOn s.toList)))
  match Message.ofName? name with
  | some m => .fixed m
  | none => .named name

/-- The name as it is shown. -/
def shown : EventName → String
  | .fixed m => m.name
  | .named name => name
  | .line => "ExecuteLine"

/-- The fixed event, if it is one. -/
def message? : EventName → Option Message
  | .fixed m => some m
  | _ => none

end EventName

end EntityScript
