import EntityScript.Proofs.Account
import EntityScript.Proofs.Fuel
import EntityScript.Proofs.Handlers
import EntityScript.Proofs.TimerMap

/-! A dispatch keeps to its entity. As long as it takes no entity away and sends no event right away, it
changes no other entity, no timer of another and no event that waits; and what it queues names its entity
as the sender. -/
namespace EntityScript

theorem EntityTable.get?_modify_ne (t : EntityTable) {changed id : EntityId} (f : Entity → Entity)
    (h : id ≠ changed) : (t.modify changed f).get? id = t.get? id := by
  unfold get? modify
  induction t.members with
  | nil => rfl
  | cons m ms ih =>
      rw [List.map_cons, List.find?_cons, List.find?_cons]
      by_cases hChanged : m.1 = changed
      · have hOther : ¬ m.1 = id := fun hSame => h (hSame.symm.trans hChanged)
        simp only [hChanged, if_true, decide_eq_false (hChanged ▸ hOther)]
        exact ih
      · simp only [hChanged, if_false]
        cases decide (m.1 = id) with
        | true => rfl
        | false => exact ih

/-- A new event takes a slot that was free. -/
theorem EventQueue.push_filled (q : EventQueue) (e : QueuedEvent) {i : Nat} {p : Pending}
    (h : (q.push e).2.slot? i = some p) : q.slot? i = some p ∨ q.slot? i = none ∧ p.event = e := by
  rcases q.push_cases e with ⟨j, _, hFree, hPush⟩ | hPush
  · rw [hPush] at h
    change ({ q with slots := q.slots.setIfInBounds j (some ⟨q.next, e⟩) } : EventQueue).slot? i = _ at h
    rw [slot?_setIfInBounds] at h
    split at h
    · rename_i hTaken
      cases h
      exact .inr ⟨hTaken.1 ▸ hFree, rfl⟩
    · exact .inl h
  · rw [hPush] at h
    exact .inl h

namespace Session

variable {id : EntityId} {s t u : Session}

/-- What a session keeps while only one entity acts. -/
structure Apart (id : EntityId) (s t : Session) : Prop where
  ids : t.world.entities.ids = s.world.entities.ids
  others : ∀ x, x ≠ id → t.world.entities.get? x = s.world.entities.get? x
  timers : ∀ i (x : Timer), x.owner ≠ id →
    (t.world.timers.slot? i = some x ↔ s.world.timers.slot? i = some x)
  clock : t.world.clock = s.world.clock
  heartbeat : t.world.heartbeat = s.world.heartbeat
  capacity : t.world.queue.capacity = s.world.queue.capacity
  waiting : ∀ i p, s.world.queue.slot? i = some p → t.world.queue.slot? i = some p
  filled : ∀ i p, t.world.queue.slot? i = some p →
    s.world.queue.slot? i = some p ∨ s.world.queue.slot? i = none ∧ p.event.sender = some id

namespace Apart

/-- A change that leaves all but the globals, the random numbers and the depth alone. -/
theorem of_same (hEntities : t.world.entities = s.world.entities)
    (hTimers : t.world.timers = s.world.timers) (hClock : t.world.clock = s.world.clock)
    (hHeartbeat : t.world.heartbeat = s.world.heartbeat)
    (hQueue : t.world.queue = s.world.queue) : Apart id s t where
  ids := by rw [hEntities]
  others _ _ := by rw [hEntities]
  timers _ _ _ := by rw [hTimers]
  clock := hClock
  heartbeat := hHeartbeat
  capacity := by rw [hQueue]
  waiting _ _ h := by rwa [hQueue]
  filled _ _ h := .inl (by rwa [← hQueue])

theorem refl (id : EntityId) (s : Session) : Apart id s s := of_same rfl rfl rfl rfl rfl

theorem trans (h : Apart id s t) (h' : Apart id t u) : Apart id s u where
  ids := h'.ids.trans h.ids
  others x hx := (h'.others x hx).trans (h.others x hx)
  timers i x hx := (h'.timers i x hx).trans (h.timers i x hx)
  clock := h'.clock.trans h.clock
  heartbeat := h'.heartbeat.trans h.heartbeat
  capacity := h'.capacity.trans h.capacity
  waiting i p hp := h'.waiting i p (h.waiting i p hp)
  filled i p hp := by
    rcases h'.filled i p hp with hOld | ⟨hFree, hSender⟩
    · exact h.filled i p hOld
    · right
      refine ⟨Option.eq_none_iff_forall_ne_some.mpr fun held hHeld => ?_, hSender⟩
      cases hFree.symm.trans (h.waiting i held hHeld)

end Apart

theorem Look.apart {script : Script} {f : Session → Session} (h : s.Look script f) :
    Apart id s (f s) := by
  cases h <;> exact .of_same rfl rfl rfl rfl rfl

/-- What commands do, they do to their own entity. -/
theorem Deed.apart {inv : Invocation} {f : Session → Session} (h : s.Deed inv f) :
    Apart inv.entity s (f s) := by
  cases h with
  | chance => exact .of_same rfl rfl rfl rfl rfl
  | give => exact .of_same rfl rfl rfl rfl rfl
  | globals => exact .of_same rfl rfl rfl rfl rfl
  | modify =>
      exact { Apart.refl inv.entity s with
        ids := EntityTable.ids_modify _ _ _
        others := fun _ hx => EntityTable.get?_modify_ne _ _ hx }
  | @free p hp =>
      refine { Apart.refl inv.entity s with timers := fun i x hx => ?_ }
      change (s.world.timers.free p).slot? i = some x ↔ _
      rw [TimerSet.slot?_free_eq, Option.filter_eq_some_iff]
      refine and_iff_left_of_imp fun _ => ?_
      have hKept : p (some x) = false := by
        refine Bool.eq_false_iff.mpr fun hFreed => hx ?_
        simpa [TimerSet.ownedBy] using hp (some x) hFreed
      simp [hKept]
  | @start new hOwner =>
      refine { Apart.refl inv.entity s with timers := fun i x hx => ?_ }
      obtain ⟨j, hReplaces, _⟩ := s.world.timers.start_replaces new
      change (s.world.timers.start new).slot? i = some x ↔ _
      rw [hReplaces.slots]
      constructor
      · rintro (hPlaced | ⟨hOld, _⟩)
        · cases hPlaced
          exact absurd hOwner hx
        · exact hOld
      · exact fun hOld => .inr ⟨hOld, fun hKey => hx (hKey.1.symm.trans hOwner)⟩
  | @enqueue e hSender =>
      have hWorld := enqueue_world e s
      constructor
      · rw [hWorld]
      · exact fun _ _ => by rw [hWorld]
      · exact fun _ _ _ => by rw [hWorld]
      · rw [hWorld]
      · rw [hWorld]
      · rw [hWorld]
        exact (EventQueue.push_follows _ e).capacity
      · intro i p hp
        rw [hWorld]
        exact EventQueue.push_keeps e hp
      · intro i p hp
        rw [hWorld] at hp
        rcases EventQueue.push_filled _ e hp with hOld | ⟨hFree, hEvent⟩
        · exact .inl hOld
        · exact .inr ⟨hFree, hEvent ▸ hSender⟩

end Session

/-- What the act comes to asks for an event to be sent right away. -/
def Act.Sends (act : Act Reply) (inv : Invocation) (p : Progress) : Prop :=
  ∃ e q, act inv p = .ok (.send e) q

/-- Handlers that do what the commands do, except where an entity is taken away or an event is sent
right away; there they may do anything. -/
structure Handlers.Spares (h : Handlers) : Prop where
  command : ∀ c inv p, c.name ≠ "destroy" → ¬ c.run.Sends inv p → h.command c inv p = c.run inv p
  timer : ∀ name inv p, ¬ (Command.runTimer name).Sends inv p →
    h.timer name inv p = Command.runTimer name inv p

/-- The act, but no event is sent. -/
def Act.hushed (act : Act Reply) : Act Reply := do
  match ← act with
  | .send _ => return .failed
  | r => return r

/-- Handlers that take no entity away and send no event. -/
def Handlers.idle : Handlers where
  command c := if c.name = "destroy" then pure .failed else c.run.hushed
  timer name := (Command.runTimer name).hushed

theorem Act.hushed_eq {act : Act Reply} {inv : Invocation} {p : Progress} (h : ¬ act.Sends inv p) :
    act.hushed inv p = act inv p := by
  unfold hushed
  rw [bind_apply]
  cases hRun : act inv p with
  | error halt q => rfl
  | ok r q =>
      cases r with
      | send e => exact absurd ⟨e, q, hRun⟩ h
      | _ => rfl

theorem Handlers.idle_spares : Handlers.idle.Spares where
  command c inv p hName hSends := by
    unfold idle
    dsimp only
    rw [if_neg hName]
    exact Act.hushed_eq hSends
  timer _ _ _ hSends := Act.hushed_eq hSends

namespace Act

variable {S : Session → Session → Prop} {inv inv' : Invocation} {h : Handlers} {registry : Registry}

theorem hushed_twin {act : Act Reply} (hAct : Twin S inv inv' (fun _ => True) act) :
    Twin S inv inv' Reply.Quiet act.hushed := by
  apply hAct.andThen
  intro r
  cases r <;> exact .pure True.intro

theorem idle_twin (hS : Serves S inv inv') {c : Command} (hCommand : c ∈ Command.builtins) :
    Twin S inv inv' Reply.Quiet (Handlers.idle.command c) := by
  unfold Handlers.idle
  dsimp only
  split
  · exact .pure True.intro
  · rename_i hName
    rcases Command.builtins_cases hCommand with ⟨hDestroy, _⟩ | hTwin
    · exact absurd hDestroy hName
    · exact hushed_twin ((hTwin hS).mono fun _ _ => True.intro)

variable (hS : Serves S inv inv') (hDry : inv'.dry = inv.dry)
  (hCommands : ∀ {word c}, registry.find? word = some c → Twin S inv inv' Reply.Quiet (h.command c))
  (hTimers : ∀ name, Twin S inv inv' Reply.Quiet (h.timer name))

include hS hDry hCommands hTimers

/-- By handlers that send no events, a turn asks for no other dispatch. -/
theorem turnBy_twin (stance : Stance) :
    Twin S inv inv' Turn.Quiet (turnBy h registry stance) := by
  have hUnlessDry {α : Type} {Q : α → Prop} {x : Act α} {a : α} (b : Bool) (ha : Q a)
      (hx : Twin S inv inv' Q x) :
      Twin S inv inv' Q (invocation >>= fun i => if i.dry && b then pure a else x) := by
    intro p p' hp
    rw [invocation_bind, invocation_bind, hDry]
    split
    · exact .ok ha hp
    · exact hx p p' hp
  have hAnswer (r : Reply) (hr : r.Quiet) : Twin S inv inv' Turn.Quiet (answer stance r) :=
    (answer_twin hS.under stance r).mono fun _ h => h hr
  apply (hS.command _).andThen
  intro word
  split
  · exact (endText_twin hS.toSees stance).mono fun _ h => h.1
  · apply (announce_twin hS.toSees word).andThen
    intro _
    unfold followBy
    cases hFound : registry.find? word with
    | some c =>
        refine Twin.bind (Q := Reply.Quiet) ?_ hAnswer
        apply (mayGive_twin hS.toSees c).andThen
        intro allowed
        split
        · exact hUnlessDry _ True.intro (hCommands hFound)
        · exact (passOver_twin hS.toWatches word).mono fun _ h => h.1
    | none =>
        cases behind? "timer" word.toList with
        | some name =>
            have hTimer := hUnlessDry true (a := Turn.finish .refuse) True.intro
              ((hTimers (String.ofList name)).bind hAnswer)
            simpa only [Bool.and_true] using hTimer
        | none => exact (passWord_twin hS.toWatches stance word).mono fun _ h => h.1

end Act

namespace Act

variable {α β : Type}

/-- The first act does what the second does, unless it runs out of fuel. -/
def Below (x y : Act α) : Prop := ∀ inv p, x inv p = y inv p ∨ ∃ q, x inv p = .error .outOfFuel q

theorem Below.refl (x : Act α) : Below x x := fun _ _ => .inl rfl

theorem Below.bind {x y : Act α} {f g : α → Act β} (hxy : Below x y) (hfg : ∀ a, Below (f a) (g a)) :
    Below (x >>= f) (y >>= g) := by
  intro inv p
  rw [bind_apply, bind_apply]
  rcases hxy inv p with hSame | ⟨q, hOut⟩
  · rw [← hSame]
    cases x inv p with
    | ok a q => exact hfg a inv q
    | error halt q => exact .inl rfl
  · rw [hOut]
    exact .inr ⟨q, rfl⟩

theorem Below.ite {c : Prop} [Decidable c] {x y x' y' : Act α} (hx : Below x x') (hy : Below y y') :
    Below (if c then x else y) (if c then x' else y') := by
  split
  · exact hx
  · exact hy

theorem Below.perform {x y : Act α} (h : Below x y) (f : Frame) :
    Action.Below (f.perform x) (f.perform y) := by
  intro s
  unfold Frame.perform
  rcases h f.invocation ⟨s, f.pos, f.calls⟩ with hSame | ⟨q, hOut⟩
  · exact .inl (by rw [hSame])
  · exact .inr ⟨q.session, by rw [hOut]⟩

/-- The act, but it runs out of fuel in place of sending an event. -/
def trapped (act : Act Reply) : Act Reply := do
  match ← act with
  | .send _ => throw .outOfFuel
  | r => return r

theorem trapped_below {act x : Act Reply} (h : ∀ inv p, ¬ act.Sends inv p → x inv p = act inv p) :
    Below act.trapped x := by
  intro inv p
  by_cases hSends : act.Sends inv p
  · obtain ⟨e, q, hRun⟩ := hSends
    right
    refine ⟨q, ?_⟩
    unfold trapped
    rw [bind_apply, hRun]
    rfl
  · rw [h inv p hSends]
    left
    unfold trapped
    rw [bind_apply]
    cases hRun : act inv p with
    | error halt q => rfl
    | ok r q =>
        cases r with
        | send e => exact absurd ⟨e, q, hRun⟩ hSends
        | _ => rfl

end Act

/-- Handlers that run out of fuel where an entity is taken away or an event is sent right away. -/
def Handlers.trap : Handlers where
  command c := if c.name = "destroy" then throw .outOfFuel else c.run.trapped
  timer name := (Command.runTimer name).trapped

namespace Handlers.Spares

variable {h : Handlers} (hSpares : h.Spares)

include hSpares

theorem command_below (c : Command) : Act.Below (Handlers.trap.command c) (h.command c) := by
  unfold Handlers.trap
  dsimp only
  split
  · exact fun _ p => .inr ⟨p, rfl⟩
  · rename_i hName
    exact Act.trapped_below fun inv p => hSpares.command c inv p hName

theorem turnBy_below (registry : Registry) (stance : Stance) :
    Act.Below (Act.turnBy .trap registry stance) (Act.turnBy h registry stance) := by
  refine .bind (.refl _) fun word => .ite (.refl _) (.bind (.refl _) fun _ => ?_)
  unfold Act.followBy
  split
  · refine .bind (.bind (.refl _) fun _ => .ite (.bind (.refl _) fun _ => ?_) (.refl _)) fun _ => .refl _
    exact .ite (.refl _) (hSpares.command_below _)
  · refine .bind (.refl _) fun _ => .ite (.refl _) (.bind ?_ fun _ => .refl _)
    exact Act.trapped_below fun inv p => hSpares.timer _ inv p
  · exact .refl _

theorem runBy_below (rules : Rules) (fuel : Nat) (f : Frame) :
    Action.Below (rules.runBy .trap fuel f) (rules.runBy h fuel f) := by
  induction fuel generalizing f with
  | zero => exact .refl _
  | succ fuel ih =>
      unfold Rules.runBy
      refine .bind ((hSpares.turnBy_below _ _).perform f) ?_
      rintro ⟨turn, g⟩
      cases turn with
      | finish v => exact .refl _
      | go stance => exact .bind_right fun _ => .ite (ih _) (.refl _)
      | send e stance =>
          exact (Rules.deliverWith_below ih _).discard.bind fun _ =>
            .bind_right fun _ => .ite (ih _) (.refl _)

end Handlers.Spares

theorem Handlers.own_spares : Handlers.own.Spares := ⟨fun _ _ _ _ _ => rfl, fun _ _ _ _ => rfl⟩

namespace Rules

variable {rules : Rules} {fuel : Nat} {d : Delivery} {s t : Session} {v : Verdict}

/-- A dispatch that comes to its end by the trap takes no entity away and sends no event right away. -/
theorem deliver_of_trap (hTrap : rules.deliverBy .trap fuel d s = .ok v t) :
    rules.deliver fuel d s = .ok v t ∧
      ∀ h : Handlers, h.Spares → rules.deliverBy h fuel d s = rules.deliver fuel d s := by
  have hEnds (h : Handlers) (hSpares : h.Spares) : rules.deliverBy h fuel d s = .ok v t :=
    (deliverWith_below (hSpares.runBy_below rules fuel) d).ok hTrap
  have hOwn := hEnds .own Handlers.own_spares
  unfold deliverBy at hOwn
  rw [runBy_own] at hOwn
  exact ⟨hOwn, fun h hSpares => (hEnds h hSpares).trans hOwn.symm⟩

end Rules

/-- The action leads from sessions with `P` to such a session, at a value or at a halt. -/
def Action.Holds {α : Type} (P : Session → Prop) (act : Action α) : Prop :=
  ∀ s, P s → P (act.state s)

namespace Action.Holds

variable {α β : Type} {P : Session → Prop}

theorem pure (a : α) : Holds P (Pure.pure a) := fun _ hs => hs

theorem bind {x : Action α} {f : α → Action β} (hx : Holds P x) (hf : ∀ a, Holds P (f a)) :
    Holds P (x >>= f) := by
  intro s hs
  have hFirst := hx s hs
  unfold state at hFirst ⊢
  rw [bind_apply]
  cases hRun : x s with
  | ok a t =>
      rw [hRun] at hFirst
      exact hf a t hFirst
  | error h t =>
      rw [hRun] at hFirst
      exact hFirst

theorem ite {c : Prop} [Decidable c] {x y : Action α} (hx : Holds P x) (hy : Holds P y) :
    Holds P (if c then x else y) := by
  split
  · exact hx
  · exact hy

theorem here {f : Session → Action α} (hf : ∀ s, Holds P (f s)) :
    Holds P ((MonadState.get : Action Session) >>= f) := fun s hs => hf s s hs

theorem change {f : Session → Session} (hf : ∀ s, P s → P (f s)) :
    Holds P (modify f : Action Unit) := fun s hs => hf s hs

end Action.Holds

/-- Going on behind an act of a frame. -/
theorem Frame.perform_holds {α β : Type} {P : Session → Prop} {Q : α → Prop} {f : Frame}
    {act : Act α} {k : α × Frame → Action β}
    (hAct : Act.Twin (Session.Only P) f.invocation f.invocation Q act)
    (hk : ∀ a g, g.invocation = f.invocation → Q a → (k (a, g)).Holds P) :
    (f.perform act >>= k).Holds P := by
  intro s hs
  unfold Action.state
  rw [Action.bind_apply, perform]
  cases hRun : act f.invocation ⟨s, f.pos, f.calls⟩ with
  | ok a q =>
      obtain ⟨ha, hq⟩ := hAct.kept hs hRun
      exact hk a { f with pos := q.pos, calls := q.calls } rfl ha q.session hq
  | error halt q => exact hAct.kept_halt hs hRun

namespace Rules

variable {rules : Rules} {id : EntityId} {s : Session}

theorem serves_apart (s : Session) {inv : Invocation} (hInv : inv.entity = id) :
    Act.Serves (Session.Only (s.Apart id)) inv inv := by
  subst hInv
  exact .of_kept (fun _ _ hs hLook => hs.trans hLook.apart) fun _ _ hs hDeed => hs.trans hDeed.apart

theorem nested_holds (script : Script) (event : EventName) {act : Action Verdict}
    (hAct : act.Holds (s.Apart id)) : (rules.nested script event act).Holds (s.Apart id) := by
  have hDepth (f : Nat → Nat) : Action.Holds (s.Apart id)
      (modify (Session.onWorld fun w => { w with depth := f w.depth }) : Action Unit) :=
    .change fun _ ht => ht.trans (.of_same rfl rfl rfl rfl rfl)
  refine .here fun _ => .ite ?_ ?_
  · exact .bind (.change fun _ ht => ht.trans (.of_same rfl rfl rfl rfl rfl)) fun _ => .pure _
  · exact (hDepth (· + 1)).bind fun _ => hAct.bind fun _ => (hDepth (· - 1)).bind fun _ => .pure _

/-- The frames of the entity keep to it. -/
def Secludes (s : Session) (id : EntityId) (run : Frame → Action Verdict) : Prop :=
  ∀ f, f.invocation.entity = id → (run f).Holds (s.Apart id)

variable {run : Frame → Action Verdict}

theorem deliverTo_holds {d : Delivery} (hRun : Secludes s d.target run) (script : Script) :
    (rules.deliverTo run d script).Holds (s.Apart d.target) := by
  unfold deliverTo
  split
  · exact .pure _
  · apply nested_holds
    have hEntity {inv : Invocation} (hInv : inv.entity = d.target) :
        Act.Twin (Session.Only (s.Apart d.target)) inv inv (fun _ => True) Act.openEvent :=
      Act.openEvent_twin (serves_apart s hInv).toWatches
    refine Frame.perform_holds (hEntity rfl) fun opened g hSame _ => ?_
    exact .ite (hRun g (by rw [hSame])) (.pure _)

theorem deliverWith_holds {d : Delivery} (hRun : Secludes s d.target run) :
    (rules.deliverWith run d).Holds (s.Apart d.target) := by
  refine .here fun t => ?_
  cases t.world.entities.get? d.target with
  | none => exact .pure _
  | some e =>
      refine .ite (.pure _) (.ite (.pure _) ?_)
      refine (deliverTo_holds hRun _).bind fun _ => .here fun _ => .ite (.pure _) ?_
      exact deliverTo_holds hRun _

section OfBuiltins

variable (hRegistry : rules.registry.OfBuiltins)

include hRegistry

/-- Without commands that take an entity away or send an event right away, a dispatch keeps to its
entity. -/
theorem runBy_idle_holds (fuel : Nat) : Secludes s id (rules.runBy .idle fuel) := by
  induction fuel with
  | zero => exact fun _ _ _ ht => ht
  | succ fuel ih =>
      rintro f rfl
      have hServes : Act.Serves (Session.Only (s.Apart f.invocation.entity)) f.invocation
          f.invocation := serves_apart s rfl
      have hTurn : Act.Twin (Session.Only (s.Apart f.invocation.entity)) f.invocation f.invocation
          Turn.Quiet (Act.turnBy .idle rules.registry f.stance) :=
        Act.turnBy_twin hServes rfl
          (fun hFind => Act.idle_twin hServes (hRegistry.find? hFind).1)
          (fun name => Act.hushed_twin
            ((Command.runTimer_twin hServes name).mono fun _ _ => True.intro)) f.stance
      unfold runBy
      refine Frame.perform_holds hTurn fun turn g hSame hQuiet => ?_
      cases turn with
      | finish v => exact .pure _
      | go stance =>
          exact .here fun _ => .ite (ih { g with stance } (congrArg Invocation.entity hSame)) (.pure _)
      | send e stance => exact hQuiet.elim

/-- A dispatch on an entity that takes no entity away and sends no event right away leaves everything of
the other entities as it is: what they are, their timers, and the events that wait. It takes slots of
the queue that were free only for events with its entity as the sender. That it does neither of the two
is to say that it does not depend on what would be done there. -/
theorem dispatch_keeps_apart (fuel : Nat) (s : Session) :
    (∀ d, (∀ h : Handlers, h.Spares → rules.deliverBy h fuel d s = rules.deliver fuel d s) →
      s.Apart d.target ((rules.deliver fuel d).state s)) ∧
    ∀ script id pos timer,
      (∀ h : Handlers, h.Spares →
        rules.runLineBy h fuel script id pos timer s = rules.runLine fuel script id pos timer s) →
      s.Apart id ((rules.runLine fuel script id pos timer).state s) := by
  refine ⟨fun d hAlone => ?_, fun script id pos timer hAlone => ?_⟩
  · have hKept : (rules.deliverBy .idle fuel d).Holds (s.Apart d.target) :=
      deliverWith_holds (runBy_idle_holds hRegistry fuel)
    have hSession := hKept s (.refl _ _)
    unfold Action.state at hSession ⊢
    rwa [← hAlone .idle Handlers.idle_spares]
  · have hKept : (rules.runLineBy .idle fuel script id pos timer).Holds (s.Apart id) :=
      .here fun _ => .ite (nested_holds _ _ (runBy_idle_holds hRegistry fuel _ rfl)) (.pure _)
    have hSession := hKept s (.refl _ _)
    unfold Action.state at hSession ⊢
    rwa [← hAlone .idle Handlers.idle_spares]

end OfBuiltins

/-- A sentry that shares its group with another, and that starts a timer and raises an alarm. -/
def sentryRequests : List Request :=
  [.spawn {
      className := "npc", groups := ["guards"]
      script := some (.ofNormal "npc" ("on init \x7b\n set §n 1\n timerwatch 2 5 inc §n 1\n" ++
        " sendevent -g guards alarm\n accept\n\x7d\n")) },
    .spawn { className := "npc", groups := ["guards"] }]

def sentrySession : Session :=
  (plain.serve 9 sentryRequests).state ⟨.ofConfig plain.config, .silent, #[]⟩

set_option maxRecDepth 100000 in
/-- The alarm waits for the other of them, to which nothing has happened. -/
theorem dispatch_keeps_apart_sentry :
    ∃ t, plain.deliver 20 { target := ⟨0⟩, event := .fixed .init } sentrySession = .ok .accept t ∧
      t.world.entities.get? ⟨1⟩ = sentrySession.world.entities.get? ⟨1⟩ ∧
      ∃ p, t.world.queue.slot? 0 = some p ∧ p.event.target = ⟨1⟩ ∧ p.event.sender = some ⟨0⟩ := by
  have hRun : Result.passes (fun v t => v = .accept ∧
      (t.world.queue.slot? 0).any fun p => p.event.target = ⟨1⟩)
      (plain.deliverBy .trap 20 { target := ⟨0⟩, event := .fixed .init } sentrySession) = true := by
    decide +kernel
  have hFree : sentrySession.world.queue.slot? 0 = none := by decide +kernel
  obtain ⟨v, t, hTrap, hCheck⟩ := Result.exists_of_passes hRun
  obtain ⟨rfl, hQueued⟩ := of_decide_eq_true hCheck
  obtain ⟨p, hSlot, hTarget⟩ := (Option.any_eq_true _ _).mp hQueued
  obtain ⟨hDeliver, hAlone⟩ := deliver_of_trap hTrap
  have hApart := (dispatch_keeps_apart Registry.builtins_ofBuiltins 20 sentrySession).1 _ hAlone
  unfold Action.state at hApart
  rw [hDeliver] at hApart
  refine ⟨t, hDeliver, hApart.others ⟨1⟩ (by decide), p, hSlot, of_decide_eq_true hTarget, ?_⟩
  rcases hApart.filled 0 p hSlot with hOld | ⟨_, hSender⟩
  · cases hFree.symm.trans hOld
  · exact hSender

end Rules

end EntityScript
