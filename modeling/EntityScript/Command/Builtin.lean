import EntityScript.Command.Assignment
import EntityScript.Command.Flow
import EntityScript.Command.Gameplay
import EntityScript.Command.Listing
import EntityScript.Command.Membership
import EntityScript.Command.Messaging
import EntityScript.Command.Schedule

/-!
The commands that every session has.
-/

namespace EntityScript

/-- The commands that every session has. -/
def Command.builtins : List Command :=
  flow ++ assignment ++ schedule ++ messaging ++ membership ++ gameplay ++ listings

/-- The registry of the commands that every session has. -/
def Registry.builtins : Registry := .ofList Command.builtins

end EntityScript
