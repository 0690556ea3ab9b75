import EntityScript.Entity.Basic
import EntityScript.Scene.Settings

/-!
Scene definitions: the settings of a session, its global variables, the entities that it begins with
and the events that reach them at fixed ticks.
-/

namespace EntityScript.Scene

open Toml (Data Entries)

/-- An entity of a scene. -/
structure EntityDefinition where
  className : String
  /-- The file with the class script. -/
  scriptFile : Option String := none
  /-- The class script itself. -/
  source : Option String := none
  /-- The file with the overriding script. -/
  overridingFile : Option String := none
  flags : List String := []
  groups : List String := []
  types : List String := []
  items : List String := []
  position : Point := ⟨0, 0, 0⟩
  inZone : Bool := true

/-- An event of a scene. -/
structure EventDefinition where
  /-- The tick that it is delivered before. -/
  tick : Nat
  /-- The name of the entity that it is for. -/
  target : String
  event : String
  parameters : String
  /-- The name of the entity that it comes from. -/
  sender : Option String
  /-- Queued rather than delivered right away. -/
  queued : Bool
  deriving DecidableEq, Repr

/-- A scene. -/
structure Definition where
  config : Config
  globals : List (String × Value)
  entities : List EntityDefinition
  events : List EventDefinition

/-- The value of a variable that data give. -/
def valueOfData? : Data → Option Value
  | .text s => some (.text s)
  | .int n => some (.int (Int64.ofInt n))
  | .float x => some (.float x)
  | _ => none

/-- The place that a list of at least three numbers gives. -/
def pointOfData? (d : Data) : Option Point := do
  let coordinates ← ((← d.items?).take 3).mapM Data.float?
  match coordinates with
  | [x, y, z] => return ⟨x, y, z⟩
  | _ => none

/-- Puts a variable into a list that is ordered by name. -/
def insertGlobal (v : String × Value) : List (String × Value) → List (String × Value)
  | [] => [v]
  | w :: ws => if v.1 < w.1 then v :: w :: ws else w :: insertGlobal v ws

/-- The global variables that data give, ordered by name. -/
def globalsOfData? (d : Data) : Option (List (String × Value)) := do
  let values ← (← d.entries?).mapM fun (name, d) => (valueOfData? d).map fun v => (name, v)
  return values.foldl (fun sorted v => insertGlobal v sorted) []

/-- A list of texts. -/
def textsOfData? : Data → Option (List String) := Data.listOf? Data.text?

/-- The entity that data give. -/
def EntityDefinition.ofData? (d : Data) : Option EntityDefinition := do
  let entries ← d.fields? ["class", "script", "source", "override", "flags", "groups", "types",
    "items", "position", "active_zone"]
  let className ← entries.required? "class" Data.text?
  let scriptFile ← entries.optional? "script" Data.text?
  let source ← entries.optional? "source" Data.text?
  let overridingFile ← entries.optional? "override" Data.text?
  let flags ← entries.orDefault? "flags" textsOfData? []
  let groups ← entries.orDefault? "groups" textsOfData? []
  let types ← entries.orDefault? "types" textsOfData? []
  let items ← entries.orDefault? "items" textsOfData? []
  let position ← entries.orDefault? "position" pointOfData? ⟨0, 0, 0⟩
  let inZone ← entries.orDefault? "active_zone" Data.bool? true
  return { className, scriptFile, source, overridingFile, flags, groups, types, items, position,
           inZone }

/-- The event that data give. -/
def EventDefinition.ofData? (d : Data) : Option EventDefinition := do
  let entries ← d.fields? ["tick", "target", "name", "params", "sender", "queued"]
  let tick ← entries.orDefault? "tick" (Data.natBelow? (Nat.pow 2 32)) 0
  let target ← entries.required? "target" Data.text?
  let event ← entries.required? "name" Data.text?
  let parameters ← entries.orDefault? "params" Data.text? ""
  let sender ← entries.optional? "sender" Data.text?
  let queued ← entries.orDefault? "queued" Data.bool? false
  return { tick, target, event, parameters, sender, queued }

/-- The scene in the text of a file. -/
def Definition.ofText? (text : String) : Option Definition := do
  let entries ← Toml.read? text
  let config ← entries.orDefault? "engine" Config.ofData? {}
  let globals ← entries.orDefault? "globals" globalsOfData? []
  let entities ← entries.orDefault? "entity" (Data.listOf? EntityDefinition.ofData?) []
  let events ← entries.orDefault? "event" (Data.listOf? EventDefinition.ofData?) []
  return { config, globals, entities, events }

/-- The files that a scene needs beside its own. -/
def Definition.files (d : Definition) : List String :=
  d.config.suppressionFile.toList ++
    d.entities.flatMap fun e => e.scriptFile.toList ++ e.overridingFile.toList

end EntityScript.Scene
