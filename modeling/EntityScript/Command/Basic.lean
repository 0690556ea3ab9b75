import EntityScript.Act.Flow
import EntityScript.Event.Verdict

/-!
Commands and the registry that finds them. A command word may be written with underscores and
capital letters; two commands whose names differ in nothing else are the same.
-/

namespace EntityScript

/-- An event that one script sends to another entity right away. -/
structure Send where
  target : EntityId
  event : EventName
  parameters : Parameters
  deriving DecidableEq, Repr

/-- What a command asks its dispatch to do next. -/
inductive Reply where
  /-- Go on behind the command. -/
  | success
  /-- Go on although the command failed. -/
  | failed
  /-- End the dispatch. -/
  | finish (v : Verdict)
  /-- Go on at the label or return point that the place was moved to. -/
  | jumped
  /-- Dispatch an event and go on once that has ended. -/
  | send (s : Send)
  deriving DecidableEq, Repr

/-- A command. -/
structure Command where
  name : String
  /-- The kinds of entity that may give the command; any entity if there are none. -/
  requires : List Capability := []
  /-- Free of side effects, so that a dry run may give it. -/
  harmless : Bool := false
  run : Act Reply

/-- The name that a command word denotes: in lower case and without underscores. -/
def Command.normalize (word : String) : String :=
  String.ofList ((word.toList.filter (· ≠ '_')).flatMap Text.lowerChar)

/-- The commands of a session by their normal names, in the order in which they were added. -/
structure Registry where
  entries : List (String × Command)

namespace Registry

/-- The registry without commands. -/
def empty : Registry := ⟨[]⟩

/-- The command that a word denotes. -/
def find? (r : Registry) (word : String) : Option Command := r.entries.lookup (Command.normalize word)

/-- Adds a command, unless there is one of the same normal name. -/
def add? (r : Registry) (c : Command) : Option Registry :=
  let name := Command.normalize c.name
  if (r.entries.lookup name).isSome then none else some ⟨r.entries ++ [(name, c)]⟩

/-- The registry of the listed commands; the first of several with one name stays. -/
def ofList (cs : List Command) : Registry := cs.foldl (fun r c => (r.add? c).getD r) empty

/-- The number of commands. -/
def size (r : Registry) : Nat := r.entries.length

/-- The normal names, in the order in which the commands were added. -/
def names (r : Registry) : List String := r.entries.map Prod.fst

/-- The normal names in ascending order. -/
def sortedNames (r : Registry) : List String := (NameSet.ofList r.names).names

end Registry

end EntityScript
