import EntityScript.Proofs.Course

/-! Sessions with the same world, in games that answer the same, are alike: every later sequence of
requests gets the same responses in both and leaves them alike. They may differ in the log and in what
the game was asked and told before. -/
namespace EntityScript

/-- The same world, and a game that answers the same. -/
structure Session.Alike (s s' : Session) : Prop where
  world : s'.world = s.world
  answers : s'.host.record.answers = s.host.record.answers
  responses : s'.host.record.responses = s.host.record.responses

namespace Host

/-- What a game was asked and told does not change what it answers. -/
theorem modify_answers {f : HostRecord → HostRecord} (hf : ∀ r, (f r).answers = r.answers) (h : Host) :
    (h.modify f).record.answers = h.record.answers := by
  cases h with
  | silent => rfl
  | recording r => exact hf r

theorem modify_responses {f : HostRecord → HostRecord} (hf : ∀ r, (f r).responses = r.responses)
    (h : Host) : (h.modify f).record.responses = h.record.responses := by
  cases h with
  | silent => rfl
  | recording r => exact hf r

end Host

namespace Session.Alike

variable {s s' t t' : Session}

theorem onWorld (h : Alike s s') (f : World → World) : Alike (s.onWorld f) (s'.onWorld f) :=
  ⟨congrArg f h.world, h.answers, h.responses⟩

/-- Only the world and what the game answers matter. -/
theorem of_same (h : Alike s s') (hWorld : t'.world = t.world) (hHost : t.host = s.host)
    (hHost' : t'.host = s'.host) : Alike t t' := by
  constructor
  · exact hWorld
  · rw [hHost, hHost', h.answers]
  · rw [hHost, hHost', h.responses]

theorem onHost (h : Alike s s') {f : HostRecord → HostRecord} (hAnswers : ∀ r, (f r).answers = r.answers)
    (hResponses : ∀ r, (f r).responses = r.responses) :
    Alike { s with host := s.host.modify f } { s' with host := s'.host.modify f } := by
  constructor
  · exact h.world
  · exact (Host.modify_answers hAnswers _).trans
      (h.answers.trans (Host.modify_answers hAnswers _).symm)
  · exact (Host.modify_responses hResponses _).trans
      (h.responses.trans (Host.modify_responses hResponses _).symm)

theorem look (h : Alike s s') {script : Script} {f : Session → Session} (hLook : s.Look script f) :
    Alike (f s) (f s') := by
  cases hLook with
  | write => exact h.of_same h.world rfl rfl
  | ask name => exact h.onHost (fun _ => rfl) fun _ => rfl
  | draw => exact h.onWorld _

theorem enqueue (h : Alike s s') (e : QueuedEvent) : Alike (s.enqueue e).2 (s'.enqueue e).2 := by
  have hWorld : (s'.enqueue e).2.world = (s.enqueue e).2.world := by
    rw [enqueue_world, enqueue_world, h.world]
  exact h.of_same hWorld (enqueue_host _ _) (enqueue_host _ _)

theorem deed (h : Alike s s') {inv : Invocation} {f : Session → Session} (hDeed : s.Deed inv f) :
    Alike (f s) (f s') := by
  cases hDeed with
  | chance => exact h.onWorld _
  | give c => exact h.onHost (fun _ => rfl) fun _ => rfl
  | globals => exact h.onWorld _
  | modify => exact h.onWorld _
  | free => exact h.onWorld _
  | start =>
      rename_i timer _ _ _
      have hStarted := h.onWorld fun w => { w with timers := w.timers.start timer }
      exact hStarted.of_same hStarted.world rfl rfl
  | enqueue => exact h.enqueue _

theorem destroy (h : Alike s s') (id : EntityId) : Alike (s.destroy id).2 (s'.destroy id).2 := by
  unfold Session.destroy
  rw [h.world]
  cases s.world.entities.get? id with
  | none => exact h
  | some e =>
      have hGone := h.onHost (f := fun r => { r with destroyed := r.destroyed ++ [id] }) (fun _ => rfl)
        fun _ => rfl
      have hWorld := congrArg (fun w : World => { w with
        entities := w.entities.remove id, timers := w.timers.clearFor id
        queue := w.queue.clearFor id }) h.world
      exact ⟨hWorld, hGone.answers, hGone.responses⟩

theorem spawn (h : Alike s s') (b : Blueprint) : Alike (s.spawn b).2 (s'.spawn b).2 := by
  have hHost (u : Session) : (u.spawn b).2.host = u.host := by
    unfold Session.spawn
    cases b.script with
    | none => cases b.overriding <;> rfl
    | some script => cases b.overriding <;> rfl
  exact h.of_same (by rw [spawn_world, spawn_world, h.world]) (hHost _) (hHost _)

theorem congruence (suppressions : Suppressions) : Congruence suppressions suppressions Alike := by
  apply Congruence.of_same
  · exact fun h => h.world
  · exact fun h => h.answers
  · exact fun h => h.responses
  · exact fun h hLook => h.look hLook
  · exact fun h _ hDeed => h.deed hDeed
  · exact fun id _ _ h => h.destroy id
  · exact fun f _ _ h => h.onWorld fun w => { w with depth := f w.depth }

end Session.Alike

namespace Rules

variable {rules : Rules} {suppressions' : Suppressions} {T : Session → Session → Prop}
  (hT : Session.Congruence rules.suppressions suppressions' T)
  (hCommands : rules.registry.InStep rules.suppressions suppressions' T)
  (hRelease : ∀ i number {s s'}, T s s' → T (s.release i number) (s'.release i number))

include hT hCommands hRelease

/-- A slot is visited the same way in related sessions. -/
theorem visitSlot_paired (fuel i : Nat) {s s' : Session} (hRel : T s s') :
    Paired T (fun _ => True) (rules.visitSlot fuel i s)
      ((rules.under suppressions').visitSlot fuel i s') := by
  have hWorld := hT.world hRel
  rw [visitSlot_apply, visitSlot_apply, hWorld]
  cases s.world.queue.slot? i with
  | none => exact .ok True.intro hRel
  | some p =>
      have hDelivery : p.delivery s' = p.delivery s := by
        unfold Pending.delivery
        rw [hWorld]
      dsimp only
      by_cases hLive : s.world.entities.contains p.event.target = true
      · rw [if_pos hLive, if_pos hLive, hDelivery]
        have hDelivered := deliver_paired hT hCommands fuel (p.delivery s) hRel
        generalize rules.deliver fuel (p.delivery s) s = r at hDelivered ⊢
        generalize (rules.under suppressions').deliver fuel (p.delivery s) s' = r' at hDelivered ⊢
        cases hDelivered with
        | ok _ hState => exact .ok True.intro (hRelease i p.number hState)
        | error hState => exact .error hState
      · rw [if_neg hLive, if_neg hLive]
        exact .ok True.intro (hRelease i p.number (hT.write _ _ _ hRel))

theorem drainSlots_paired (fuel limit : Nat) (slots : List Nat) (before : Nat) {s s' : Session}
    (hRel : T s s') : Paired T (fun _ => True) (rules.drainSlots fuel limit before slots s)
      ((rules.under suppressions').drainSlots fuel limit before slots s') := by
  induction slots generalizing before s s' with
  | nil => exact .ok True.intro hRel
  | cons i rest ih =>
      unfold drainSlots
      apply (visitSlot_paired hT hCommands hRelease fuel i hRel).action_bind
      intro sent t t' _ h
      refine Outcomes.ite (fun _ => ?_) fun _ => ih before h
      exact Outcomes.ite (fun _ => .ok True.intro h) fun _ => ih (before + 1) h

theorem drain_paired (fuel limit : Nat) {s s' : Session} (hRel : T s s') :
    Paired T (fun _ => True) (rules.drain fuel limit s)
      ((rules.under suppressions').drain fuel limit s') := by
  unfold drain
  rw [Action.get_bind, Action.get_bind, hT.world hRel]
  exact drainSlots_paired hT hCommands hRelease fuel limit _ 0 hRel

end Rules

namespace Rules

variable {rules : Rules} (hRegistry : rules.registry.OfBuiltins)

include hRegistry

/-- Sessions that are alike stay alike. -/
theorem alike_upheld : rules.Upholds rules.suppressions (fun _ _ => True) Session.Alike Session.Alike where
  toCongruence := Session.Alike.congruence _
  halt _ _ h := h
  plain _ h := h.onWorld _
  spawn b _ _ h := h.spawn b
  timer i slot _ _ h _ := h.onWorld fun w => { w with timers := w.timers.setSlot i slot }
  queue e _ _ h _ := h.enqueue e
  reset h := h.onWorld _
  drain fuel limit _ _ h :=
    drain_paired (Session.Alike.congruence _) (hRegistry.inStep (Session.Alike.congruence _))
      (fun i number _ _ h => h.onWorld fun w => { w with queue := w.queue.release i number }) fuel
      limit h

/-- The same requests get the same responses in sessions that are alike. -/
theorem answerAll_alike (fuel : Nat) (requests : List Request) {s s' : Session} (h : s.Alike s') :
    Outcomes Session.Alike Session.Alike (fun _ => True) (rules.answerAll fuel requests s)
      (rules.answerAll fuel requests s') := by
  have hUpheld := alike_upheld hRegistry
  have hCommands := hRegistry.inStep hUpheld.toCongruence
  unfold answerAll
  induction requests generalizing s s' with
  | nil => exact .ok True.intro h
  | cons r requests ih =>
      rw [List.mapM_cons]
      have hFits : r.Fits (fun _ _ => True) s := by cases r <;> exact True.intro
      refine (Request.respond_outcomes hUpheld hCommands fuel r h hFits).action_bind
        fun response t t' _ hOn => ?_
      exact (ih hOn).action_bind fun _ _ _ _ hEnd => .ok True.intro hEnd

end Rules

end EntityScript
