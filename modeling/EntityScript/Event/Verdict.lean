/-!
The outcome of a dispatch, which tells the game whether its default action goes ahead.
-/

namespace EntityScript

/-- The verdict of a dispatch. -/
inductive Verdict where
  /-- The default action goes ahead. -/
  | accept
  /-- The default action is suppressed. -/
  | refuse
  /-- The script broke off with an error. -/
  | error
  /-- The entity that ran the script is gone. -/
  | destructive
  deriving DecidableEq, Repr

/-- The verdict as log lines show it. -/
def Verdict.shown : Verdict → String
  | .accept => "Accept"
  | .refuse => "Refuse"
  | .error => "Error"
  | .destructive => "Destructive"

end EntityScript
