import EntityScript.Proofs.Depth
import EntityScript.Proofs.Fuel
import EntityScript.Proofs.Passes

/-! How dispatches end. Only jumps can keep a dispatch going. Without them what is left of the text
bounds the passes of a dispatch, and what is left of the depth bounds the dispatches inside it, so there
is fuel that lasts until a verdict or a panic. -/
namespace EntityScript

/-- No script of the session is longer than so many bytes. -/
def Session.ScriptsWithin (size : Nat) (s : Session) : Prop :=
  ∀ m ∈ s.world.entities.members, m.2.script.size ≤ size ∧ m.2.overriding.size ≤ size

/-- So many dispatches are inside one another, and no script is longer than so many bytes. -/
structure Session.Within (depth size : Nat) (s : Session) : Prop where
  depth : s.world.depth = depth
  scripts : s.ScriptsWithin size

theorem Session.ScriptsWithin.evolves {size : Nat} {fresh : Timer → Prop} {s t : Session}
    (hs : s.ScriptsWithin size) (h : Session.Evolves fresh s t) : t.ScriptsWithin size := by
  intro m hm
  obtain ⟨n, hn, hScript, hOverriding⟩ := h.scripts m hm
  rw [hScript, hOverriding]
  exact hs n hn

theorem Session.ScriptsWithin.of_get? {size : Nat} {s : Session} (hs : s.ScriptsWithin size)
    {id : EntityId} {e : Entity} (h : s.world.entities.get? id = some e) :
    e.script.size ≤ size ∧ e.overriding.size ≤ size := by
  obtain ⟨m, hm, rfl⟩ := Option.map_eq_some_iff.mp h
  exact hs m (List.mem_of_find?_eq_some hm)

namespace Action

variable {α β : Type} {P : Session → Prop} {Q : α → Prop} {R : β → Prop}

/-- From a session with `P` the action comes to a value with `Q` and again to a session with `P`, or it
panics; fuel lasts. -/
def Finishes (P : Session → Prop) (Q : α → Prop) (act : Action α) : Prop :=
  ∀ s, P s → match act s with
    | .ok a t => P t ∧ Q a
    | .error h _ => h ≠ .outOfFuel

namespace Finishes

theorem pure {a : α} (ha : Q a) : Finishes P Q (Pure.pure a) := fun _ hs => ⟨hs, ha⟩

theorem bind {x : Action α} {f : α → Action β} (hx : Finishes P Q x)
    (hf : ∀ a, Q a → Finishes P R (f a)) : Finishes P R (x >>= f) := by
  intro s hs
  have hFirst := hx s hs
  rw [bind_apply]
  cases hRun : x s with
  | ok a t =>
      rw [hRun] at hFirst
      exact hf a hFirst.2 t hFirst.1
  | error h t =>
      rw [hRun] at hFirst
      exact hFirst

theorem andThen {x : Action α} {f : α → Action β} (hx : Finishes P (fun _ => True) x)
    (hf : ∀ a, Finishes P R (f a)) : Finishes P R (x >>= f) := hx.bind fun a _ => hf a

theorem get : Finishes P P (MonadState.get : Action Session) := fun _ hs => ⟨hs, hs⟩

theorem discard {x : Action α} (hx : Finishes P (fun _ => True) x) :
    Finishes P (fun _ => True) (Functor.discard x) := hx.andThen fun _ => .pure True.intro

/-- An act that fails only with excuses finishes in a frame. -/
theorem perform {depth size : Nat} {Q : α × Frame → Prop} {act : Act α} (hDepth : act.KeepsDepth)
    {f : Frame} (hAct : ∀ s : Session,
      Act.Ends f.invocation ⟨s, f.pos, f.calls⟩ act ⟨s, f.pos, f.calls⟩ fun a q =>
        (∃ fresh, Session.Evolves fresh s q.session) ∧
          Q (a, { f with pos := q.pos, calls := q.calls })) :
    Finishes (Session.Within depth size) Q (f.perform act) := by
  intro s hs
  have hEnds := hAct s
  have hSame := hDepth.perform f s
  unfold Action.state at hSame
  unfold Act.Ends at hEnds
  cases hRun : f.perform act s with
  | error halt t =>
      obtain ⟨x, rfl⟩ := Frame.perform_fault (hAct s) hRun
      exact nofun
  | ok result t =>
      obtain ⟨a, g⟩ := result
      obtain ⟨hValue, hInvocation, hStance⟩ := Frame.perform_ok hRun
      rw [hRun] at hSame
      rw [hValue] at hEnds
      obtain ⟨⟨fresh, hEvolves⟩, hQ⟩ := hEnds
      refine ⟨⟨hSame.trans hs.depth, hs.scripts.evolves hEvolves⟩, ?_⟩
      rw [← hInvocation, ← hStance] at hQ
      exact hQ

end Finishes

end Action

namespace Rules

open EntityScript.Action (Finishes)

variable {rules : Rules} {depth size : Nat}

theorem goOn_finishes {P : Session → Prop} (f : Frame) (stance : Stance) :
    Finishes P (fun _ => True) (goOn f stance) := fun _ hs => ⟨hs, True.intro⟩

/-- A dispatch finishes if what it does one level deeper does, where it is not cut off. -/
theorem nested_finishes {script : Script} {event : EventName} {act : Action Verdict}
    (hAct : depth < rules.config.maxDepth →
      Finishes (Session.Within (depth + 1) size) (fun _ => True) act) :
    Finishes (Session.Within depth size) (fun _ => True) (rules.nested script event act) := by
  intro s hs
  by_cases hDeep : rules.config.maxDepth ≤ s.world.depth
  · rw [nested_abort rules script event act hDeep]
    exact ⟨⟨hs.depth, hs.scripts⟩, True.intro⟩
  · have hLess : depth < rules.config.maxDepth := by
      rw [← hs.depth]
      omega
    have hInner := hAct hLess (s.onWorld fun w => { w with depth := w.depth + 1 })
      ⟨congrArg (· + 1) hs.depth, hs.scripts⟩
    rw [nested_enter rules script event act hDeep, Action.bind_apply]
    cases hRun : act (s.onWorld fun w => { w with depth := w.depth + 1 }) with
    | error halt t =>
        rw [hRun] at hInner
        exact hInner
    | ok v t =>
        rw [hRun] at hInner
        exact ⟨⟨congrArg (· - 1) hInner.1.depth, hInner.1.scripts⟩, True.intro⟩

theorem openEvent_finishes {f : Frame} (hCalls : f.calls = []) :
    Finishes (Session.Within depth size)
      (fun r => r.2.calls = [] ∧ r.2.invocation = f.invocation) (f.perform Act.openEvent) := by
  refine .perform openEvent_keepsDepth fun s => ?_
  refine (Act.openEvent_steady _ (Advance.refl _ _).onward).mono fun _ q hq => ?_
  exact ⟨⟨_, hq.1.session⟩, hq.1.calls.trans hCalls, rfl⟩

theorem about_finishes {α : Type} {P : Session → Prop} {act : Action α}
    (hAct : Finishes P (fun _ => True) act) (id : EntityId) :
    Finishes P (fun _ => True) (about id act) := by
  refine Finishes.get.bind fun _ _ => ?_
  split
  · exact hAct.andThen fun _ => .pure True.intro
  · exact .pure True.intro

/-- Every frame in which a block of one of the session's scripts begins finishes. -/
def BlocksFinish (size depth : Nat) (run : Frame → Action Verdict) : Prop :=
  ∀ f, f.calls = [] → f.invocation.script.size ≤ size →
    Finishes (Session.Within depth size) (fun _ => True) (run f)

section

variable {run : Frame → Action Verdict}
  (hRun : depth < rules.config.maxDepth → BlocksFinish size (depth + 1) run)

include hRun

theorem deliverTo_finishes (d : Delivery) {script : Script} (hScript : script.size ≤ size) :
    Finishes (Session.Within depth size) (fun _ => True) (rules.deliverTo run d script) := by
  unfold deliverTo
  split
  · exact .pure True.intro
  · refine nested_finishes fun hLess => (openEvent_finishes rfl).bind ?_
    rintro ⟨opened, g⟩ ⟨hCalls, hInvocation⟩
    dsimp only
    split
    · exact hRun hLess g hCalls (by rw [hInvocation]; exact hScript)
    · exact .pure True.intro

theorem deliverWith_finishes (d : Delivery) :
    Finishes (Session.Within depth size) (fun _ => True) (rules.deliverWith run d) := by
  refine Finishes.get.bind fun s hs => ?_
  cases hTarget : s.world.entities.get? d.target with
  | none => exact .pure True.intro
  | some e =>
      obtain ⟨hScript, hOverriding⟩ := hs.scripts.of_get? hTarget
      dsimp only
      split
      · exact .pure True.intro
      split
      · exact .pure True.intro
      refine (deliverTo_finishes hRun d hOverriding).andThen fun _ => Finishes.get.bind fun _ _ => ?_
      split
      · exact .pure True.intro
      · exact deliverTo_finishes hRun d hScript

end

/-- A pass finishes if the dispatch of the event that it sends does. -/
theorem pass_finishes (hRegistry : rules.registry.OfBuiltins) {fuel : Nat}
    (hDeliver : ∀ d, Finishes (Session.Within depth size) (fun _ => True) (rules.deliver fuel d))
    (f : Frame) : Finishes (Session.Within depth size) (fun _ => True) (rules.pass fuel f) := by
  have hTurn : Finishes (Session.Within depth size) (fun _ => True)
      (f.perform (Act.turn rules.registry f.stance)) := by
    refine .perform (Act.turn_keepsDepth (fun e he => .inl (hRegistry e he).1) f.stance) fun s => ?_
    refine (Act.turn_cases hRegistry f.stance f.invocation ⟨s, f.pos, f.calls⟩).mono ?_
    rintro turn q ⟨scan, log, _, hTurned⟩
    have hEvolves := hTurned.evolves
    exact ⟨⟨_, hEvolves.clock, hEvolves.scripts, hEvolves.timers⟩, True.intro⟩
  refine hTurn.andThen ?_
  rintro ⟨turn, g⟩
  cases turn with
  | finish v => exact .pure True.intro
  | go stance => exact goOn_finishes g stance
  | send e stance => exact (hDeliver _).discard.andThen fun _ => goOn_finishes g stance

/-- The dispatches of the events that a dispatch sends need so much fuel: on each level that is left
a turn for each byte of the longest script, and one for its end. -/
def fuelInside (rules : Rules) (depth size : Nat) : Nat :=
  (rules.config.maxDepth - depth) * (size + 1)

/-- One level deeper they need less, by the turns that a script can take. -/
theorem fuelInside_of_lt (hLess : depth < rules.config.maxDepth) :
    rules.fuelInside depth size = rules.fuelInside (depth + 1) size + (size + 1) := by
  have hLevel : rules.config.maxDepth - depth = rules.config.maxDepth - (depth + 1) + 1 := by omega
  rw [fuelInside, fuelInside, hLevel, Nat.succ_mul]

variable (hRegistry : rules.registry.OfBuiltins) (hStraight : rules.registry.Straight)

include hRegistry hStraight

/-- A dispatch finishes with a turn for each byte that is left of its script, one for the end, and
what the dispatches inside it need. -/
theorem run_finishes (fuel : Nat) {depth : Nat} {f : Frame} (hCalls : f.calls = [])
    (hFuel : f.invocation.script.size - f.pos + 1 + rules.fuelInside depth size ≤ fuel) :
    Finishes (Session.Within depth size) (fun _ => True) (rules.run fuel f) := by
  induction fuel generalizing f depth with
  | zero => omega
  | succ fuel ih =>
      -- Inside, a level is used up, which pays for every turn that a script there can take.
      have hInner : depth < rules.config.maxDepth → BlocksFinish size (depth + 1) (rules.run fuel) := by
        intro hLess g hCalls' hSize
        rw [fuelInside_of_lt hLess] at hFuel
        exact ih hCalls' (by omega)
      intro s hs
      have hPass := pass_finishes hRegistry (deliverWith_finishes hInner) f s hs
      rw [run_succ, Action.bind_apply]
      cases hNext : rules.pass fuel f s with
      | error halt t =>
          rw [hNext] at hPass
          exact hPass
      | ok next t =>
          rw [hNext] at hPass
          cases next with
          | inl v => exact hPass
          | inr g =>
              obtain ⟨hInvocation, hCalls', hPos, hLeft⟩ :=
                pass_advances hRegistry hStraight hCalls hNext
              refine ih hCalls' ?_ t hPass.1
              rw [hInvocation]
              omega

theorem deliver_finishes {fuel : Nat} (hFuel : rules.fuelInside depth size ≤ fuel) (d : Delivery) :
    Finishes (Session.Within depth size) (fun _ => True) (rules.deliver fuel d) := by
  refine deliverWith_finishes (fun hLess f hCalls hSize => ?_) d
  rw [fuelInside_of_lt hLess] at hFuel
  exact run_finishes hRegistry hStraight fuel hCalls (by omega)

theorem runLine_finishes {fuel : Nat} (hFuel : rules.fuelInside depth size ≤ fuel) {script : Script}
    (hScript : script.size ≤ size) (entity : EntityId) (pos : Nat) (timer : Option String) :
    Finishes (Session.Within depth size) (fun _ => True)
      (rules.runLine fuel script entity pos timer) := by
  refine Finishes.get.bind fun _ _ => ?_
  split
  · refine nested_finishes fun hLess => ?_
    rw [fuelInside_of_lt hLess] at hFuel
    refine run_finishes hRegistry hStraight fuel rfl ?_
    dsimp only
    omega
  · exact .pure True.intro

theorem send_finishes {fuel : Nat} (hFuel : rules.fuelInside depth size ≤ fuel) (d : Delivery) :
    Finishes (Session.Within depth size) (fun _ => True) (rules.send fuel d) :=
  about_finishes (deliver_finishes hRegistry hStraight hFuel d) d.target

theorem execute_finishes {fuel : Nat} (hFuel : rules.fuelInside depth size ≤ fuel) (id : EntityId)
    {text : String} (hText : (Script.ofRaw consoleName text).size ≤ size) :
    Finishes (Session.Within depth size) (fun _ => True) (rules.execute fuel id text) := by
  refine about_finishes ?_ id
  refine Finishes.andThen (fun s hs => ⟨⟨hs.depth, hs.scripts⟩, True.intro⟩) fun _ => ?_
  exact runLine_finishes hRegistry hStraight hFuel hText _ _ _

end Rules

/-- The number of bytes of the longest script of the session. -/
def Session.longest (s : Session) : Nat :=
  s.world.entities.members.foldr
    (fun m size => max (max m.2.script.size m.2.overriding.size) size) 0

theorem Session.scriptsWithin_of_le {size : Nat} {s : Session} (h : s.longest ≤ size) :
    s.ScriptsWithin size := by
  unfold longest at h
  unfold ScriptsWithin
  generalize s.world.entities.members = members at h ⊢
  induction members with
  | nil => exact nofun
  | cons first rest ih =>
      rw [List.foldr_cons] at h
      intro m hm
      rcases List.mem_cons.mp hm with rfl | hRest
      · omega
      · exact ih (by omega) m hRest

namespace Action

variable {α β : Type}

/-- From the session on the action comes to an end, a value or a panic: to the same one with any fuel
from a bound on. -/
def Ends (act : Nat → Action α) (enough : Nat) (s : Session) : Prop :=
  (∃ a t, ∀ fuel, enough ≤ fuel → act fuel s = .ok a t) ∨
    ∃ x t, ∀ fuel, enough ≤ fuel → act fuel s = .error (.fault x) t

theorem Below.fault {x y : Action α} (h : Below x y) {f : Fault} {s t : Session}
    (hx : x s = .error (.fault f) t) : y s = .error (.fault f) t := by
  rcases h s with hSame | ⟨u, hOut⟩
  · exact hSame.symm.trans hx
  · cases hx.symm.trans hOut

/-- What finishes with the fuel of the bound ends there. -/
theorem Ends.of_finishes {act : Nat → Action α} {enough : Nat} {P : Session → Prop} {s : Session}
    (hBelow : ∀ fuel, enough ≤ fuel → Below (act enough) (act fuel))
    (hFinishes : Finishes P (fun _ => True) (act enough)) (hs : P s) : Ends act enough s := by
  have hEnd := hFinishes s hs
  cases hRun : act enough s with
  | ok a t => exact .inl ⟨a, t, fun fuel hFuel => (hBelow fuel hFuel).ok hRun⟩
  | error halt t =>
      rw [hRun] at hEnd
      cases halt with
      | fault x => exact .inr ⟨x, t, fun fuel hFuel => (hBelow fuel hFuel).fault hRun⟩
      | outOfFuel => exact absurd rfl hEnd

end Action

namespace Rules

open EntityScript.Action (Below Ends)

variable {rules : Rules}

theorem about_below {α : Type} {x y : Action α} (h : Below x y) (id : EntityId) :
    Below (about id x) (about id y) :=
  .bind_right fun _ => .ite (h.bind fun _ => .refl _) (.refl _)

theorem send_below {fuel fuel' : Nat} (h : fuel ≤ fuel') (d : Delivery) :
    Below (rules.send fuel d) (rules.send fuel' d) :=
  about_below (deliverWith_below (run_below h) d) d.target

theorem execute_below {fuel fuel' : Nat} (h : fuel ≤ fuel') (id : EntityId) (text : String) :
    Below (rules.execute fuel id text) (rules.execute fuel' id text) :=
  about_below (.bind_right fun _ => runLine_below h _ _ _ _) id

/-- Every event that is sent or peeked at and every line that is executed comes to an end. -/
structure Terminates (rules : Rules) (s : Session) : Prop where
  send (d : Delivery) : Ends (rules.send · d) (rules.fuelInside s.world.depth s.longest) s
  peek (target : EntityId) (event : EventName) :
    Ends (rules.peek · target event) (rules.fuelInside s.world.depth s.longest) s
  execute (id : EntityId) (text : String) :
    Ends (rules.execute · id text)
      (rules.fuelInside s.world.depth (max s.longest (Script.ofRaw consoleName text).size)) s

/-- Only jumps can loop. A dispatch is a sequence of passes; each of them ends the dispatch, jumps, or
moves its cursor on, whatever the dispatches inside it do. So without `goto` and `gosub` whatever is sent,
peeked at or executed comes to an end. The scans inside a pass do so in any case: more fuel than they
are given changes nothing. -/
theorem only_jumps_loop (hRegistry : rules.registry.OfBuiltins) :
    (∀ fuel f, rules.run (fuel + 1) f =
      rules.passWith (rules.deliver fuel) f >>= Sum.elim pure (rules.run fuel)) ∧
    (∀ dispatch f s, rules.Iterates dispatch f (rules.passWith dispatch f s)) ∧
    (rules.registry.Straight → ∀ s, rules.Terminates s) ∧
    (∀ (script : Script) pos fuel, script.size < fuel →
      script.skipStatement fuel pos = script.skipStatement (script.size + 1) pos) ∧
    (∀ p fuel, 2 * p.rest.length + 2 ≤ fuel → Condition.readItem fuel p = Condition.read p) := by
  refine ⟨fun fuel f => by rw [run_succ, pass_eq], passWith_iterates hRegistry,
    fun hStraight s => ?_, ?_, ?_⟩
  · have hSend (d : Delivery) :
        Ends (rules.send · d) (rules.fuelInside s.world.depth s.longest) s :=
      .of_finishes (fun _ hFuel => send_below hFuel d)
        (send_finishes hRegistry hStraight (Nat.le_refl _) d)
        ⟨rfl, Session.scriptsWithin_of_le (Nat.le_refl _)⟩
    refine ⟨hSend, fun target event => hSend _, fun id text => ?_⟩
    exact .of_finishes (fun _ hFuel => execute_below hFuel id text)
      (execute_finishes hRegistry hStraight (Nat.le_refl _) id (Nat.le_max_right _ _))
      ⟨rfl, Session.scriptsWithin_of_le (Nat.le_max_left _ _)⟩
  · exact fun script pos fuel hFuel =>
      Script.skipStatement_enough (by omega) (by omega) (by omega) (by omega)
  · exact fun p fuel hFuel => (Condition.read_enough _ p rfl).1 _ _ (by omega) (by omega)

/-- The rules of a session without `goto` and `gosub`, and with room for three dispatches inside one
another. -/
def straight : Rules where
  config := { seed := some 0, maxDepth := 3 }
  suppressions := .empty
  registry := .ofList (Command.builtins.filter fun c => c.name ∉ ["goto", "gosub"])

/-- An entity that answers an event by sending it to itself again. -/
def selfCaller : Session :=
  (Session.spawn { className := "npc", script := some (.ofNormal "npc"
    "on hit \x7b\n sendevent hit self\n accept\n\x7d\n") } ⟨.ofConfig straight.config, .silent, #[]⟩).2

set_option maxRecDepth 100000 in
/-- Three dispatches are inside one another then, and the innermost sends the event in vain. -/
theorem only_jumps_loop_selfCaller :
    straight.registry.OfBuiltins ∧ straight.registry.Straight ∧
      ∃ t, ∀ fuel, straight.fuelInside 0 selfCaller.longest ≤ fuel →
        straight.send fuel { target := ⟨0⟩, event := .fixed .hit } selfCaller =
          .ok (.ok .accept) t := by
  have hRegistry : straight.registry.OfBuiltins :=
    .ofList fun c hc => (List.mem_filter.mp hc).1
  have hStraight : straight.registry.Straight :=
    ⟨Option.isNone_iff_eq_none.mp (by decide +kernel),
      Option.isNone_iff_eq_none.mp (by decide +kernel)⟩
  refine ⟨hRegistry, hStraight, ?_⟩
  have hRun : Result.passes (fun answer _ => answer.toOption = some .accept)
      (straight.send (straight.fuelInside 0 selfCaller.longest)
        { target := ⟨0⟩, event := .fixed .hit } selfCaller) = true := by
    decide +kernel
  obtain ⟨answer, t, hSend, hAnswer⟩ := Result.exists_of_passes hRun
  obtain rfl := eq_ok_of_toOption (of_decide_eq_true hAnswer)
  obtain ⟨_, _, hTerminates, _⟩ := only_jumps_loop hRegistry
  rcases (hTerminates hStraight selfCaller).send { target := ⟨0⟩, event := .fixed .hit } with
    ⟨a, u, hEnd⟩ | ⟨x, u, hEnd⟩
  · have hSame := (hEnd _ (Nat.le_refl _)).symm.trans hSend
    exact ⟨t, fun fuel hFuel => (hEnd fuel hFuel).trans hSame⟩
  · cases (hEnd _ (Nat.le_refl _)).symm.trans hSend

end Rules

end EntityScript
