import EntityScript.Proofs.Requests
import EntityScript.Proofs.TimerMap
import EntityScript.Proofs.TwinRuns

/-! Requests go the same way in related sessions and get the same responses. What must hold of the
relation is listed once: it holds on through what dispatches do, and through what requests do
besides. -/
namespace EntityScript

/-- What a game gets back from a request. -/
inductive Response where
  | done
  | spawned (id : EntityId)
  | verdict (a : Answer Verdict)
  | taken (room : Bool)
  | count (n : Nat)
  | settled (a : Answer Unit)
  deriving Repr

namespace Request

/-- Carries out a request and gives its response. -/
def respond (rules : Rules) (fuel : Nat) : Request → Action Response
  | spawn b => return .spawned (← modifyGet (Session.spawn b))
  | send d => return .verdict (← rules.send fuel d)
  | peek target event => return .verdict (← rules.peek fuel target event)
  | queue e => return .taken (← Rules.queue e)
  | init id => return .verdict (← rules.initEntity fuel id)
  | execute id text => return .verdict (← rules.execute fuel id text)
  | tick dt => do
    rules.tick fuel dt
    return .done
  | timers => do
    rules.sweep fuel
    return .done
  | drain limit => return .count (← rules.drain fuel limit)
  | heartbeat => return .count (← rules.heartbeat fuel)
  | dismiss id => return .settled (← modifyGet (Session.dismiss id))
  | reset again => do
    rules.reset fuel again
    return .done
  | setGlobal name v => return .settled (← modifyGet (Session.setGlobal name v))
  | setLocal id name v => return .settled (← modifyGet (Session.setLocal id name v))

/-- Performing a request is responding to it without the response. -/
theorem perform_eq (rules : Rules) (fuel : Nat) (r : Request) :
    r.perform rules fuel = discard (r.respond rules fuel) := by
  have hValue {α : Type} (x : Action α) (f : α → Response) :
      (discard (x >>= fun a => pure (f a)) : Action Unit) = discard x := by
    funext s
    change ((x >>= fun a => pure (f a)) >>= fun _ => pure ()) s = (x >>= fun _ => pure ()) s
    rw [Action.bind_apply, Action.bind_apply, Action.bind_apply]
    cases x s <;> rfl
  have hDone (x : Action Unit) : (discard (x >>= fun _ => pure Response.done) : Action Unit) = x := by
    rw [hValue]
    funext s
    change (x >>= fun _ => pure ()) s = x s
    rw [Action.bind_apply]
    cases x s <;> rfl
  cases r with
  | tick dt => exact (hDone _).symm
  | timers => exact (hDone _).symm
  | reset again => exact (hDone _).symm
  | send d => exact (hValue _ _).symm
  | peek target event => exact (hValue _ _).symm
  | queue e => exact (hValue _ _).symm
  | init id => exact (hValue _ _).symm
  | execute id text => exact (hValue _ _).symm
  | drain limit => exact (hValue _ _).symm
  | heartbeat => exact (hValue _ _).symm
  | spawn b => rfl
  | dismiss id => rfl
  | setGlobal name v => rfl
  | setLocal id name v => rfl

end Request

/-- What a request queues, if it queues an event, is admitted. -/
def Request.Fits (admits : Session → QueuedEvent → Prop) (s : Session) : Request → Prop
  | queue e => admits s e
  | _ => True

instance {admits : Session → QueuedEvent → Prop} [∀ s e, Decidable (admits s e)] (s : Session) :
    ∀ r : Request, Decidable (r.Fits admits s)
  | .queue e => inferInstanceAs (Decidable (admits s e))
  | .spawn _ | .send _ | .peek _ _ | .init _ | .execute _ _ | .tick _ | .timers | .drain _
  | .heartbeat | .dismiss _ | .reset _ | .setGlobal _ _ | .setLocal _ _ _ =>
    inferInstanceAs (Decidable True)

/-- A property of the state at a value. -/
def Result.Goes (P : Session → Prop) : EStateM.Result Halt Session Unit → Prop
  | .ok _ t => P t
  | .error _ _ => True

instance {P : Session → Prop} [∀ t, Decidable (P t)] :
    ∀ r : EStateM.Result Halt Session Unit, Decidable (Result.Goes P r)
  | .ok _ t => inferInstanceAs (Decidable (P t))
  | .error _ _ => inferInstanceAs (Decidable True)

/-- Carries out requests one after the other and gives their responses. -/
def Rules.answerAll (rules : Rules) (fuel : Nat) (requests : List Request) : Action (List Response) :=
  requests.mapM (Request.respond rules fuel)

/-- Nothing changes but the variables, the clock and the heartbeat: the queue and the timers stay, and
so do the entities that are there. -/
structure World.Holds (w w' : World) : Prop where
  queue : w'.queue = w.queue
  timers : w'.timers = w.timers
  live : ∀ id, w'.entities.contains id = w.entities.contains id

/-- The entities that are there also keep their order, and the next one will get the same handle. -/
structure World.Settles (w w' : World) : Prop extends World.Holds w w' where
  ids : w'.entities.ids = w.entities.ids
  next : w'.entities.next = w.entities.next

theorem EntityTable.ids_modify (t : EntityTable) (id : EntityId) (f : Entity → Entity) :
    (t.modify id f).ids = t.ids := by
  simp only [ids, modify, List.map_map]
  refine List.map_congr_left fun m _ => ?_
  simp only [Function.comp]
  split <;> rfl

/-- What holds on between two sessions through the same requests, as far as these queue only what is
admitted; `E` is what is left of it at a halt. -/
structure Rules.Upholds (rules : Rules) (suppressions' : Suppressions)
    (admits : Session → QueuedEvent → Prop) (E T : Session → Session → Prop) : Prop
    extends Session.Congruence rules.suppressions suppressions' T where
  halt : ∀ s s', T s s' → E s s'
  plain : ∀ {f : World → World} {s s'}, (∀ w : World, w.Settles (f w)) → T s s' →
    T (s.onWorld f) (s'.onWorld f)
  spawn : ∀ b {s s'}, T s s' → T (s.spawn b).2 (s'.spawn b).2
  timer : ∀ i slot {s s'}, T s s' →
    (∀ moved, slot = some moved →
      ∃ t, s.world.timers.slot? i = some t ∧ moved.HasKey t.owner t.name) →
    T (s.setTimer i slot) (s'.setTimer i slot)
  queue : ∀ e {s s'}, T s s' → admits s e → T (s.enqueue e).2 (s'.enqueue e).2
  reset : ∀ {s s'}, T s s' → T (s.onWorld World.reset) (s'.onWorld World.reset)
  drain : ∀ fuel limit {s s'}, T s s' → Outcomes E T (fun _ => True) (rules.drain fuel limit s)
    ((rules.under suppressions').drain fuel limit s')

namespace Rules

variable {rules : Rules} {suppressions' : Suppressions} {admits : Session → QueuedEvent → Prop}
  {E T : Session → Session → Prop} {α : Type} {s s' : Session}

/-- Going on with the same value, whatever it is. -/
theorem return_outcomes {β : Type} {x x' : Action α} (f : α → β)
    (hx : Outcomes E T (fun _ => True) (x s) (x' s')) :
    Outcomes E T (fun _ => True) ((x >>= fun a => pure (f a)) s) ((x' >>= fun a => pure (f a)) s') :=
  hx.action_bind fun _ _ _ _ h => .ok True.intro h

/-- A change that gives the same on both sides. -/
theorem modifyGet_outcomes {f : Session → α × Session} (hValue : (f s').1 = (f s).1)
    (hState : T (f s).2 (f s').2) :
    Outcomes E T (fun _ => True) ((modifyGet f : Action α) s) ((modifyGet f : Action α) s') := by
  change Outcomes E T _ (.ok (f s).1 (f s).2) (.ok (f s').1 (f s').2)
  rw [hValue]
  exact .ok True.intro hState

variable (hU : rules.Upholds suppressions' admits E T)
  (hCommands : rules.registry.InStep rules.suppressions suppressions' T)

include hU hCommands

theorem deliver_outcomes (fuel : Nat) (d : Delivery) (hRel : T s s') :
    Outcomes E T (fun _ => True) (rules.deliver fuel d s)
      ((rules.under suppressions').deliver fuel d s') :=
  .mono (deliver_paired hU.toCongruence hCommands fuel d hRel) hU.halt (fun _ _ h => h) fun _ h => h

theorem runLine_outcomes (fuel : Nat) (script : Script) (entity : EntityId) (pos : Nat)
    (timer : Option String) (hRel : T s s') :
    Outcomes E T (fun _ => True) (rules.runLine fuel script entity pos timer s)
      ((rules.under suppressions').runLine fuel script entity pos timer s') :=
  .mono (runLine_paired hU.toCongruence hCommands fuel script entity pos timer hRel) hU.halt
    (fun _ _ h => h) fun _ h => h

theorem fire_outcomes (fuel : Nat) (now : Duration) {i : Nat} {t : Timer}
    (hSlot : s.world.timers.slot? i = some t) (hRel : T s s') :
    Outcomes E T (fun _ => True) (rules.fire fuel now i t s)
      ((rules.under suppressions').fire fuel now i t s') := by
  have hLine {u u' : Session} (hu : T u u') : Outcomes E T (fun _ => True)
      ((modify (Session.write .trace .timer ("fire " ++ t.name ++ " on " ++ t.owner.shown)) >>= fun _ =>
        discard (rules.runLine fuel t.script t.owner t.pos (some t.name)) : Action Unit) u)
      ((modify (Session.write .trace .timer ("fire " ++ t.name ++ " on " ++ t.owner.shown)) >>= fun _ =>
        discard ((rules.under suppressions').runLine fuel t.script t.owner t.pos (some t.name)) :
          Action Unit) u') := by
    rw [Action.modify_bind, Action.modify_bind]
    exact return_outcomes _ (runLine_outcomes hU hCommands fuel t.script t.owner t.pos _
      (hU.write _ _ _ hu))
  unfold fire
  by_cases hLast : t.count = 1
  · simp only [if_pos hLast]
    exact hLine (hU.timer i none hRel nofun)
  · simp only [if_neg hLast]
    cases hMoved : t.advanced? now with
    | none => exact .error (hU.halt _ _ hRel)
    | some moved =>
        refine hLine (hU.timer i (some moved) hRel fun x hx => ?_)
        cases hx
        exact ⟨t, hSlot, Timer.advanced?_hasKey hMoved⟩

theorem visitTimer_outcomes (fuel : Nat) (now : Duration) (i : Nat) (hRel : T s s') :
    Outcomes E T (fun _ => True) (rules.visitTimer fuel now i s)
      ((rules.under suppressions').visitTimer fuel now i s') := by
  rw [visitTimer_apply, visitTimer_apply, hU.world hRel]
  cases hSlot : s.world.timers.slot? i with
  | none => exact .ok True.intro hRel
  | some t =>
      cases hDue : t.due? with
      | none =>
          simp only [hDue]
          exact .error (hU.halt _ _ hRel)
      | some due =>
          simp only [hDue]
          by_cases hReached : due.nanos ≤ now.nanos
          · simp only [if_pos hReached]
            cases s.world.entities.get? t.owner with
            | none => exact .ok True.intro (hU.timer i none hRel nofun)
            | some owner =>
                dsimp only
                by_cases hIdle : (t.idle && !owner.inZone) = true
                · simp only [if_pos hIdle]
                  cases hMoved : t.caughtUp? now with
                  | none => exact .error (hU.halt _ _ hRel)
                  | some moved =>
                      refine .ok True.intro (hU.timer i (some moved) hRel fun x hx => ?_)
                      cases hx
                      exact ⟨t, hSlot, Timer.caughtUp?_hasKey hMoved⟩
                · simp only [if_neg hIdle]
                  exact fire_outcomes hU hCommands fuel now hSlot hRel
          · simp only [if_neg hReached]
            exact .ok True.intro hRel

theorem sweepFrom_outcomes (fuel : Nat) (now : Duration) (steps i : Nat) (hRel : T s s') :
    Outcomes E T (fun _ => True) (rules.sweepFrom fuel now steps i s)
      ((rules.under suppressions').sweepFrom fuel now steps i s') := by
  induction steps generalizing i s s' with
  | zero => exact .error (hU.halt _ _ hRel)
  | succ steps ih =>
      rw [sweepFrom_succ, sweepFrom_succ, hU.world hRel]
      split
      · exact (visitTimer_outcomes hU hCommands fuel now i hRel).action_bind fun _ _ _ _ h =>
          ih (i + 1) h
      · exact .ok True.intro hRel

theorem sweep_outcomes (fuel : Nat) (hRel : T s s') :
    Outcomes E T (fun _ => True) (rules.sweep fuel s) ((rules.under suppressions').sweep fuel s') := by
  unfold sweep
  rw [Action.get_bind, Action.get_bind, hU.world hRel]
  exact sweepFrom_outcomes hU hCommands fuel _ fuel 0 hRel

theorem beat_outcomes (fuel : Nat) (hRel : T s s') :
    Outcomes E T (fun _ => True) (rules.beat fuel s) ((rules.under suppressions').beat fuel s') := by
  unfold beat
  rw [Action.get_bind, Action.get_bind, hU.world hRel]
  dsimp only
  cases s.world.entities.nextLive? s.world.heartbeat with
  | none => exact .ok True.intro hRel
  | some id =>
      dsimp only
      rw [Action.modify_bind, Action.modify_bind]
      have hNext := hU.plain (f := fun w => { w with heartbeat := id.index + 1 })
        (fun _ => ⟨⟨rfl, rfl, fun _ => rfl⟩, rfl, rfl⟩) hRel
      refine Outcomes.action_bind (return_outcomes (fun _ => ())
        (deliver_outcomes hU hCommands fuel _ hNext)) fun _ _ _ _ h => .ok True.intro h

theorem beats_outcomes (fuel n : Nat) (hRel : T s s') :
    Outcomes E T (fun _ => True) (rules.beats fuel n s)
      ((rules.under suppressions').beats fuel n s') := by
  induction n generalizing s s' with
  | zero => exact .ok True.intro hRel
  | succ n ih =>
      unfold beats
      apply (beat_outcomes hU hCommands fuel hRel).action_bind
      intro sent t t' _ h
      refine Outcomes.ite (fun _ => ?_) fun _ => .ok True.intro h
      exact (ih h).action_bind fun _ _ _ _ h => .ok True.intro h

theorem heartbeat_outcomes (fuel : Nat) (hRel : T s s') :
    Outcomes E T (fun _ => True) (rules.heartbeat fuel s)
      ((rules.under suppressions').heartbeat fuel s') := by
  unfold heartbeat
  rw [Action.get_bind, Action.get_bind, hU.world hRel]
  exact beats_outcomes hU hCommands fuel _ hRel

omit hCommands in
theorem about_outcomes (id : EntityId) {act act' : Action α}
    (hAct : Outcomes E T (fun _ => True) (act s) (act' s')) (hRel : T s s') :
    Outcomes E T (fun _ => True) (about id act s) (about id act' s') := by
  unfold about
  rw [Action.get_bind, Action.get_bind, hU.world hRel]
  refine Outcomes.ite (fun _ => ?_) fun _ => .ok True.intro hRel
  exact hAct.action_bind fun _ _ _ _ h => .ok True.intro h

theorem initEntity_outcomes (fuel : Nat) (id : EntityId) (hRel : T s s') :
    Outcomes E T (fun _ => True) (rules.initEntity fuel id s)
      ((rules.under suppressions').initEntity fuel id s') := by
  refine about_outcomes hU id ?_ hRel
  apply (deliver_outcomes hU hCommands fuel _ hRel).action_bind
  intro v t t' _ h
  rw [Action.get_bind, Action.get_bind, hU.world h]
  refine Outcomes.ite (fun _ => ?_) fun _ => .ok True.intro h
  exact Outcomes.action_bind (return_outcomes (fun _ => ())
    (deliver_outcomes hU hCommands fuel _ h)) fun _ _ _ _ h => .ok True.intro h

theorem initEach_outcomes (fuel : Nat) (ids : List EntityId) (hRel : T s s') :
    Outcomes E T (fun _ => True) (rules.initEach fuel ids s)
      ((rules.under suppressions').initEach fuel ids s') := by
  unfold initEach
  induction ids generalizing s s' with
  | nil => exact .ok True.intro hRel
  | cons id ids ih =>
      refine Outcomes.action_bind (return_outcomes (fun _ => ())
        (initEntity_outcomes hU hCommands fuel id hRel)) fun _ _ _ _ h => ih h

theorem reset_outcomes (fuel : Nat) (again : Bool) (hRel : T s s') :
    Outcomes E T (fun _ => True) (rules.reset fuel again s)
      ((rules.under suppressions').reset fuel again s') := by
  unfold reset
  rw [Action.modify_bind, Action.modify_bind, Action.modify_bind, Action.modify_bind]
  have hCleared := hU.write .info .script "script state reset" (hU.reset hRel)
  refine Outcomes.ite (fun _ => ?_) fun _ => .ok True.intro hCleared
  rw [Action.get_bind, Action.get_bind, hU.world hCleared]
  exact initEach_outcomes hU hCommands fuel _ hCleared

theorem execute_outcomes (fuel : Nat) (id : EntityId) (text : String) (hRel : T s s') :
    Outcomes E T (fun _ => True) (rules.execute fuel id text s)
      ((rules.under suppressions').execute fuel id text s') := by
  refine about_outcomes hU id ?_ hRel
  rw [Action.modify_bind, Action.modify_bind]
  exact runLine_outcomes hU hCommands fuel _ _ _ _
    (hU.write _ _ _ hRel)

theorem tick_outcomes (fuel : Nat) (dt : Duration) (hRel : T s s') :
    Outcomes E T (fun _ => True) (rules.tick fuel dt s)
      ((rules.under suppressions').tick fuel dt s') := by
  unfold tick
  rw [Action.get_bind, Action.get_bind, hU.world hRel]
  cases s.world.clock.add? dt with
  | none => exact .error (hU.halt _ _ hRel)
  | some clock =>
      apply Outcomes.action_bind (Q := (· = clock)) (.ok rfl hRel)
      intro _ t t' hClock h
      cases hClock
      rw [Action.modify_bind, Action.modify_bind]
      have hLater := hU.plain (f := fun w => { w with clock }) (fun _ => ⟨⟨rfl, rfl, fun _ => rfl⟩, rfl, rfl⟩) h
      apply (sweep_outcomes hU hCommands fuel hLater).action_bind
      intro _ u u' _ hSwept
      refine Outcomes.action_bind (return_outcomes (fun _ => ()) (hU.drain fuel _ hSwept))
        fun _ v v' _ hDrained => ?_
      exact return_outcomes _ (heartbeat_outcomes hU hCommands fuel hDrained)

end Rules

namespace Request

variable {rules : Rules} {suppressions' : Suppressions} {admits : Session → QueuedEvent → Prop}
  {E T : Session → Session → Prop} {s s' : Session}

theorem setGlobal_outcomes (hU : rules.Upholds suppressions' admits E T) (name : String) (v : Value)
    (hRel : T s s') : Outcomes E T (fun _ => True)
      ((modifyGet (Session.setGlobal name v) : Action (Answer Unit)) s)
      ((modifyGet (Session.setGlobal name v) : Action (Answer Unit)) s') := by
  cases hKey : scopedKey? .global name with
  | none =>
      have hSame (u : Session) : u.setGlobal name v = (.error (.invalidVariable name), u) := by
        simp only [Session.setGlobal, World.setGlobal, hKey]
      exact Rules.modifyGet_outcomes (by rw [hSame, hSame]) (by rw [hSame, hSame]; exact hRel)
  | some key =>
      let f : World → World := fun w => { w with globals := w.globals.setKey key v }
      have hWrite (u : Session) : u.setGlobal name v = (.ok (), u.onWorld f) := by
        simp only [Session.setGlobal, World.setGlobal, hKey]
        rfl
      have hWritten := hU.plain (f := f) (fun _ => ⟨⟨rfl, rfl, fun _ => rfl⟩, rfl, rfl⟩) hRel
      exact Rules.modifyGet_outcomes (by rw [hWrite, hWrite])
        (by rw [hWrite, hWrite]; exact hWritten)

theorem setLocal_outcomes (hU : rules.Upholds suppressions' admits E T) (id : EntityId)
    (name : String) (v : Value) (hRel : T s s') : Outcomes E T (fun _ => True)
      ((modifyGet (Session.setLocal id name v) : Action (Answer Unit)) s)
      ((modifyGet (Session.setLocal id name v) : Action (Answer Unit)) s') := by
  have hWorld := hU.world hRel
  cases hKey : scopedKey? .local name with
  | none =>
      have hSame (u : Session) : u.setLocal id name v = (.error (.invalidVariable name), u) := by
        simp only [Session.setLocal, World.setLocal, hKey]
      exact Rules.modifyGet_outcomes (by rw [hSame, hSame]) (by rw [hSame, hSame]; exact hRel)
  | some key =>
      let f : World → World := fun w =>
        { w with entities := w.entities.modify id fun e => { e with locals := e.locals.setKey key v } }
      by_cases hLive : s.world.entities.contains id = true
      · have hWrite (u : Session) (hu : u.world = s.world) :
            u.setLocal id name v = (.ok (), u.onWorld f) := by
          simp only [Session.setLocal, World.setLocal, hKey, hu, if_pos hLive]
          rw [Session.onWorld, hu]
        have hWritten := hU.plain (f := f)
          (fun _ => ⟨⟨rfl, rfl, fun _ => EntityTable.contains_modify _ _ _ _⟩,
            EntityTable.ids_modify _ _ _, rfl⟩) hRel
        exact Rules.modifyGet_outcomes (by rw [hWrite s rfl, hWrite s' hWorld])
          (by rw [hWrite s rfl, hWrite s' hWorld]; exact hWritten)
      · have hSame (u : Session) (hu : u.world = s.world) :
            u.setLocal id name v = (.error (.unknownEntity id), u) := by
          simp only [Session.setLocal, World.setLocal, hKey, hu, if_neg hLive]
        exact Rules.modifyGet_outcomes (by rw [hSame s rfl, hSame s' hWorld])
          (by rw [hSame s rfl, hSame s' hWorld]; exact hRel)

theorem spawn_id (b : Blueprint) (s : Session) : (s.spawn b).1 = ⟨s.world.entities.next⟩ := by
  unfold Session.spawn
  cases b.script with
  | none => cases b.overriding <;> rfl
  | some script => cases b.overriding <;> rfl

theorem dismiss_answer (id : EntityId) (s : Session) :
    (s.dismiss id).1 = if s.world.entities.contains id then .ok () else .error (.unknownEntity id) := by
  unfold Session.dismiss Session.destroy
  rw [EntityTable.contains_eq]
  cases s.world.entities.get? id <;> rfl

/-- A request goes the same way in related sessions and gets the same response. -/
theorem respond_outcomes (hU : rules.Upholds suppressions' admits E T)
    (hCommands : rules.registry.InStep rules.suppressions suppressions' T) (fuel : Nat) (r : Request)
    (hRel : T s s') (hFits : r.Fits admits s) :
    Outcomes E T (fun _ => True) (r.respond rules fuel s)
      (r.respond (rules.under suppressions') fuel s') := by
  have hWorld := hU.world hRel
  have hDeliver (d : Delivery) := Rules.deliver_outcomes hU hCommands fuel d hRel
  cases r with
  | spawn b =>
      have hId : (s'.spawn b).1 = (s.spawn b).1 := by rw [spawn_id, spawn_id, hWorld]
      exact Rules.return_outcomes _ (Rules.modifyGet_outcomes hId (hU.spawn b hRel))
  | send d => exact Rules.return_outcomes _ (Rules.about_outcomes hU _ (hDeliver d) hRel)
  | peek target event => exact Rules.return_outcomes _ (Rules.about_outcomes hU _ (hDeliver _) hRel)
  | queue e =>
      have hRoom : (s'.enqueue e).1 = (s.enqueue e).1 :=
        congrArg (fun w : World => (w.queue.push e).1) hWorld
      exact Rules.return_outcomes _ (Rules.modifyGet_outcomes hRoom
        (hU.queue e hRel hFits))
  | init id => exact Rules.return_outcomes _ (Rules.initEntity_outcomes hU hCommands fuel id hRel)
  | execute id text =>
      exact Rules.return_outcomes _ (Rules.execute_outcomes hU hCommands fuel id text hRel)
  | tick dt => exact Rules.return_outcomes _ (Rules.tick_outcomes hU hCommands fuel dt hRel)
  | timers => exact Rules.return_outcomes _ (Rules.sweep_outcomes hU hCommands fuel hRel)
  | drain limit => exact Rules.return_outcomes _ (hU.drain fuel limit hRel)
  | heartbeat => exact Rules.return_outcomes _ (Rules.heartbeat_outcomes hU hCommands fuel hRel)
  | dismiss id =>
      have hAnswer : (s'.dismiss id).1 = (s.dismiss id).1 := by
        rw [dismiss_answer, dismiss_answer, hWorld]
      exact Rules.return_outcomes _ (Rules.modifyGet_outcomes hAnswer (hU.destroy id hRel))
  | reset again => exact Rules.return_outcomes _ (Rules.reset_outcomes hU hCommands fuel again hRel)
  | setGlobal name v => exact Rules.return_outcomes _ (setGlobal_outcomes hU name v hRel)
  | setLocal id name v => exact Rules.return_outcomes _ (setLocal_outcomes hU id name v hRel)

theorem perform_outcomes (hU : rules.Upholds suppressions' admits E T)
    (hCommands : rules.registry.InStep rules.suppressions suppressions' T) (fuel : Nat) (r : Request)
    (hRel : T s s') (hFits : r.Fits admits s) :
    Outcomes E T (fun _ => True) (r.perform rules fuel s)
      (r.perform (rules.under suppressions') fuel s') := by
  rw [perform_eq, perform_eq]
  exact Rules.return_outcomes _ (respond_outcomes hU hCommands fuel r hRel hFits)

end Request

namespace Rules

variable {rules : Rules} {suppressions' : Suppressions} {admits : Session → QueuedEvent → Prop}
  {E T : Session → Session → Prop} {s s' : Session}

/-- Whatever requests queue on the way is admitted there. -/
def Admitted (rules : Rules) (fuel : Nat) (admits : Session → QueuedEvent → Prop) :
    List Request → Session → Prop
  | [], _ => True
  | r :: requests, s =>
    r.Fits admits s ∧ Result.Goes (Admitted rules fuel admits requests) (r.perform rules fuel s)

/-- Where everything is admitted, requests may queue anything. -/
theorem admitted_of_all (rules : Rules) (fuel : Nat) (hAll : ∀ s e, admits s e)
    (requests : List Request) (s : Session) : rules.Admitted fuel admits requests s := by
  induction requests generalizing s with
  | nil => exact True.intro
  | cons r requests ih =>
      refine ⟨?_, ?_⟩
      · cases r with
        | queue e => exact hAll s e
        | _ => exact True.intro
      · cases r.perform rules fuel s with
        | ok _ t => exact ih t
        | error _ _ => exact True.intro

instance instDecidableAdmitted [∀ s e, Decidable (admits s e)] (fuel : Nat) :
    ∀ (requests : List Request) (s : Session), Decidable (rules.Admitted fuel admits requests s)
  | [], _ => inferInstanceAs (Decidable True)
  | r :: requests, s =>
    have : ∀ t, Decidable (rules.Admitted fuel admits requests t) :=
      fun t => instDecidableAdmitted fuel requests t
    inferInstanceAs (Decidable (r.Fits admits s ∧ Result.Goes _ _))

theorem serve_outcomes (hU : rules.Upholds suppressions' admits E T)
    (hRegistry : rules.registry.OfBuiltins) (fuel : Nat) {requests : List Request} (hRel : T s s')
    (hAdmitted : rules.Admitted fuel admits requests s) :
    Outcomes E T (fun _ => True) (rules.serve fuel requests s)
      ((rules.under suppressions').serve fuel requests s') := by
  induction requests generalizing s s' with
  | nil => exact .ok True.intro hRel
  | cons r requests ih =>
      change Outcomes E T _ ((r.perform rules fuel >>= fun _ => rules.serve fuel requests) s)
        ((r.perform (rules.under suppressions') fuel >>= fun _ =>
          (rules.under suppressions').serve fuel requests) s')
      have hFirst := Request.perform_outcomes hU (hRegistry.inStep hU.toCongruence) fuel r hRel
        hAdmitted.1
      have hRest := hAdmitted.2
      rw [Action.bind_apply, Action.bind_apply]
      cases hRun : r.perform rules fuel s with
      | ok a t =>
          rw [hRun] at hFirst hRest
          generalize r.perform (rules.under suppressions') fuel s' = r' at hFirst ⊢
          cases hFirst with
          | ok _ hOn => exact ih hOn hRest
      | error h t =>
          rw [hRun] at hFirst
          generalize r.perform (rules.under suppressions') fuel s' = r' at hFirst ⊢
          cases hFirst with
          | error hHalt => exact .error hHalt

end Rules

end EntityScript
