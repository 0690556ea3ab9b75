import EntityScript.Duration
import EntityScript.Event.Name
import EntityScript.NameSet
import EntityScript.Script.Basic
import EntityScript.Variables

/-!
Scripted entities: what a game object shows to scripts, its class script and the script that may
override it, and its own script state.
-/

namespace EntityScript

/-- The handle of an entity. Handles count up and are never used again. -/
structure EntityId where
  index : Nat
  deriving DecidableEq, Repr

/-- A handle as log lines show it. -/
def EntityId.shown (id : EntityId) : String := "#" ++ toString id.index

/-- A kind of game object; commands may require one. -/
inductive Capability where
  | npc
  | item
  | fix
  | camera
  | marker
  deriving DecidableEq, Repr

namespace Capability

/-- Every capability, in the order in which they are listed. -/
def all : List Capability := [.npc, .item, .fix, .camera, .marker]

/-- The name of a capability. -/
def name : Capability → String
  | .npc => "npc"
  | .item => "item"
  | .fix => "fix"
  | .camera => "camera"
  | .marker => "marker"

/-- The capability of a name; the case of ASCII letters does not matter. -/
def ofName? (s : String) : Option Capability :=
  all.find? fun c => c.name.toList = s.toList.map Char.toLower

/-- Whether two lists of capabilities share one. -/
def meet (a b : List Capability) : Bool := a.any b.contains

end Capability

/-- A place in the scene. -/
structure Point where
  x : Float
  y : Float
  z : Float
  deriving Repr

/-- The distance between two places. -/
def Point.distance (a b : Point) : Float :=
  let dx := a.x - b.x
  let dy := a.y - b.y
  let dz := a.z - b.z
  (dx * dx + dy * dy + dz * dz).sqrt

/-- The number of stopwatches of an entity. -/
def stopwatchCount : Nat := 4

/-- The class whose entity is addressed as the player. -/
def playerClass : String := "player"

/-- A game object driven by scripts. -/
structure Entity where
  className : String
  /-- The number of the entity within its class. -/
  number : Nat := 0
  capabilities : List Capability := []
  groups : NameSet := .empty
  types : NameSet := .empty
  position : Point := ⟨0, 0, 0⟩
  /-- Inside the zone that is simulated. -/
  inZone : Bool := true
  inventory : List String := []
  script : Script := .empty
  overriding : Script := .empty
  locals : Variables := .empty
  /-- When each running stopwatch was started. -/
  stopwatches : List (Option Duration) := List.replicate stopwatchCount none
  disabled : List Message := []
  mainEvent : EventName := .fixed .main

namespace Entity

/-- An entity of a class, whose name is lowered. -/
def ofClass (className : String) : Entity := { className := Text.lower className }

/-- Adds the entity to a group, whose name is lowered. -/
def withGroup (e : Entity) (group : String) : Entity :=
  { e with groups := e.groups.insert (Text.lower group) }

/-- Gives the entity a type, whose name is lowered. -/
def withType (e : Entity) (type : String) : Entity :=
  { e with types := e.types.insert (Text.lower type) }

/-- Gives the entity an item, whose name is lowered. -/
def withItem (e : Entity) (item : String) : Entity :=
  { e with inventory := e.inventory ++ [Text.lower item] }

/-- The name by which scripts address the entity. -/
def ident (e : Entity) : String :=
  if e.className = playerClass then playerClass
  else e.className ++ "_" ++ String.ofList (Decimal.paddedDigits 4 e.number)

/-- Whether an event may run; only fixed events can be disabled. -/
def allows (e : Entity) (event : EventName) : Bool :=
  match event.message? with
  | some m => !e.disabled.contains m
  | none => true

/-- Enables or disables a fixed event. -/
def setEnabled (e : Entity) (m : Message) (enabled : Bool) : Entity :=
  { e with disabled := e.disabled.filter (· ≠ m) ++ if enabled then [] else [m] }

/-- Forgets all script state. -/
def reset (e : Entity) : Entity :=
  { e with
    locals := .empty, stopwatches := List.replicate stopwatchCount none
    disabled := [], mainEvent := .fixed .main }

end Entity

end EntityScript
