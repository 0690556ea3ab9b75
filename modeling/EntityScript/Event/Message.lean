/-!
The fixed events of a session. Each has a name that scripts write after `on`, and its place in the
list below is its slot.
-/

namespace EntityScript

/-- An event that the session itself knows by name. -/
inductive Message where
  | init | initEnd | main | reset | load | reload | inventoryIn | inventoryOut | inventoryUse
  | inventory2Open | inventory2Close | sceneUse | equipIn | equipOut | combine | chat | action
  | clicked | dead | die | hit | fight | flee | aggression | strike | critical | backstab | steal
  | breakage | identify | reachedTarget | lostTarget | move | waypoint | pathEnd
  | pathfinderSuccess | pathfinderFailure | detectPlayer | undetectPlayer | hear | summoned
  | npcFollow | npcFight | npcStay | treatIn | treatOut | enterZone | leaveZone
  | controlledZoneEnter | controlledZoneLeave | collideDoor | collideNpc | collideField
  | collisionError | bookOpen | bookClose | cineEnd | keyPressed | controlsOn | controlsOff
  | trapDisarmed | spellCast | spellEnd | spellDecision | cursorMode | explorationMode | custom
  deriving DecidableEq, Repr

namespace Message

/-- The fixed events with their names, in the order of their slots. -/
def table : List (Message × String) := [
  (.init, "init"), (.initEnd, "initend"), (.main, "main"), (.reset, "reset"), (.load, "load"),
  (.reload, "reload"), (.inventoryIn, "inventoryin"), (.inventoryOut, "inventoryout"),
  (.inventoryUse, "inventoryuse"), (.inventory2Open, "inventory2_open"),
  (.inventory2Close, "inventory2_close"), (.sceneUse, "sceneuse"), (.equipIn, "equipin"),
  (.equipOut, "equipout"), (.combine, "combine"), (.chat, "chat"), (.action, "action"),
  (.clicked, "clicked"), (.dead, "dead"), (.die, "die"), (.hit, "hit"), (.fight, "fight"),
  (.flee, "flee"), (.aggression, "aggression"), (.strike, "strike"), (.critical, "critical"),
  (.backstab, "backstab"), (.steal, "steal"), (.breakage, "break"), (.identify, "identify"),
  (.reachedTarget, "reachedtarget"), (.lostTarget, "losttarget"), (.move, "move"),
  (.waypoint, "waypoint"), (.pathEnd, "pathend"), (.pathfinderSuccess, "pathfinder_success"),
  (.pathfinderFailure, "pathfinder_failure"), (.detectPlayer, "detectplayer"),
  (.undetectPlayer, "undetectplayer"), (.hear, "hear"), (.summoned, "summoned"),
  (.npcFollow, "npc_follow"), (.npcFight, "npc_fight"), (.npcStay, "npc_stay"),
  (.treatIn, "treatin"), (.treatOut, "treatout"), (.enterZone, "enterzone"),
  (.leaveZone, "leavezone"), (.controlledZoneEnter, "controlledzone_enter"),
  (.controlledZoneLeave, "controlledzone_leave"), (.collideDoor, "collide_door"),
  (.collideNpc, "collide_npc"), (.collideField, "collide_field"),
  (.collisionError, "collision_error"), (.bookOpen, "book_open"), (.bookClose, "book_close"),
  (.cineEnd, "cine_end"), (.keyPressed, "key_pressed"), (.controlsOn, "controls_on"),
  (.controlsOff, "controls_off"), (.trapDisarmed, "trap_disarmed"), (.spellCast, "spellcast"),
  (.spellEnd, "spellend"), (.spellDecision, "spelldecision"), (.cursorMode, "cursormode"),
  (.explorationMode, "explorationmode"), (.custom, "custom")]

/-- The fixed events in the order of their slots. -/
def all : List Message := table.map Prod.fst

/-- The place of a fixed event among all of them. -/
def slot (m : Message) : Nat := all.idxOf m

/-- The name that scripts write. -/
def name (m : Message) : String := (table.lookup m).getD ""

/-- The fixed event of a name. -/
def ofName? (s : String) : Option Message := (table.find? fun entry => entry.2 = s).map Prod.fst

end Message

end EntityScript
