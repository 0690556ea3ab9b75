import EntityScript.Command.Basic

/-!
Commands about the entity itself: its groups and its end.
-/

namespace EntityScript.Command

open Act

/-- Joins or leaves a group. -/
def runSetGroup : Act Reply := do
  let options ← flags
  let group ← word
  if group = "" then
    warn "setgroup: missing group name"
    return .failed
  else
    let change (groups : NameSet) : NameSet :=
      if options.toList.contains 'r' then groups.erase group else groups.insert group
    if ← onSelf fun e => { e with groups := change e.groups } then return .success
    else return .failed

/-- Removes an entity. An entity that removes itself ends its dispatch. -/
def runDestroy : Act Reply := do
  let w ← word
  match ← resolve? w with
  | none =>
    warnAt w ("destroy: unknown entity '" ++ w ++ "'")
    return .failed
  | some id =>
    onSession fun s => (s.destroy id).2
    return if id = (← invocation).entity then .finish .destructive else .success

/-- The commands about the entity itself. -/
def membership : List Command := [
  { name := "setgroup", run := runSetGroup },
  { name := "destroy", run := runDestroy }]

end EntityScript.Command
