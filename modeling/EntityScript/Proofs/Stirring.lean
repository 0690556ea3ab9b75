import EntityScript.Proofs.Slots
import EntityScript.Proofs.TwinRequests

/-! What a dispatch does to a session, one change after the other. Its commands look at the session and
do their deeds for a live entity, entities are taken away, and dispatches are entered and left. -/
namespace EntityScript

/-- The session that an action leaves, at a value or at a halt. -/
def Action.state {α : Type} (act : Action α) (s : Session) : Session :=
  match act s with
  | .ok _ t => t
  | .error _ t => t

namespace Session

/-- One change that a dispatch makes. -/
inductive Stir : Session → Session → Prop where
  | look {script : Script} {s : Session} {f : Session → Session} (h : s.Look script f) : Stir s (f s)
  | deed {inv : Invocation} {s : Session} {f : Session → Session}
      (hLive : s.world.entities.contains inv.entity = true) (h : s.Deed inv f) : Stir s (f s)
  | destroy (id : EntityId) (s : Session) : Stir s (s.destroy id).2
  | depth (f : Nat → Nat) (s : Session) :
      Stir s (s.onWorld fun w => { w with depth := f w.depth })

/-- A property of one session, as a relation that holds of no two sessions. -/
def Only (P : Session → Prop) (s s' : Session) : Prop := s' = s ∧ P s

theorem Only.map {P : Session → Prop} {s s' : Session} {f : Session → Session} (h : Only P s s')
    (hf : P s → P (f s)) : Only P (f s) (f s') := ⟨by rw [h.1], hf h.2⟩

/-- With the same suppressions two dispatches report a token the same. -/
theorem Congruence.of_same {suppressions : Suppressions} {T : Session → Session → Prop}
    (world : ∀ {s s'}, T s s' → s'.world = s.world)
    (answers : ∀ {s s'}, T s s' → s'.host.record.answers = s.host.record.answers)
    (responses : ∀ {s s'}, T s s' → s'.host.record.responses = s.host.record.responses)
    (look : ∀ {s s' script f}, T s s' → s.Look script f → T (f s) (f s'))
    (deed : ∀ {s s' inv f}, T s s' → s.world.entities.contains inv.entity = true → s.Deed inv f →
      T (f s) (f s'))
    (destroy : ∀ id {s s'}, T s s' → T (s.destroy id).2 (s'.destroy id).2)
    (depth : ∀ (f : Nat → Nat) {s s'}, T s s' →
      T (s.onWorld fun w => { w with depth := f w.depth })
        (s'.onWorld fun w => { w with depth := f w.depth })) :
    Congruence suppressions suppressions T where
  world := world
  answers := answers
  responses := responses
  look := look
  deed := deed
  destroy := destroy
  depth := depth
  token inv hInv := by
    have hSees : Act.Sees T inv (inv.under inv.dry inv.suppressions) :=
      ⟨⟨_, _, rfl⟩, world, answers, look⟩
    rw [← hInv]
    exact hSees.watches.token
  resumes _ _ := rfl

/-- A property that the changes of a dispatch keep. -/
theorem Congruence.of_stirs {P : Session → Prop} (hP : ∀ s t, P s → Stir s t → P t)
    (suppressions : Suppressions) : Congruence suppressions suppressions (Only P) := by
  apply Congruence.of_same
  · intro s s' h
    rw [h.1]
  · intro s s' h
    rw [h.1]
  · intro s s' h
    rw [h.1]
  · exact fun h hLook => h.map fun hs => hP _ _ hs (.look hLook)
  · exact fun h hLive hDeed => h.map fun hs => hP _ _ hs (.deed hLive hDeed)
  · exact fun id _ _ h => h.map (f := fun s => (s.destroy id).2) fun hs => hP _ _ hs (.destroy id _)
  · exact fun f _ _ h => h.map fun hs => hP _ _ hs (.depth f _)

end Session

namespace Act

variable {P : Session → Prop} {inv : Invocation} {α : Type} {Q : α → Prop} {act : Act α}
  {p q : Progress}

/-- What holds on through looks and deeds holds on while a dispatch does what commands do. -/
theorem Serves.of_kept (hLook : ∀ s f, P s → s.Look inv.script f → P (f s))
    (hDeed : ∀ s f, P s → s.Deed inv f → P (f s)) : Serves (Session.Only P) inv inv := by
  have hSees : Sees (Session.Only P) inv (inv.under inv.dry inv.suppressions) := by
    refine ⟨⟨_, _, rfl⟩, ?_, ?_, ?_⟩
    · intro s s' h
      rw [h.1]
    · intro s s' h
      rw [h.1]
    · exact fun h hChange => h.map fun hs => hLook _ _ hs hChange
  refine ⟨hSees.watches, ?_, ?_⟩
  · intro s s' h
    rw [h.1]
  · exact fun h hChange => h.map fun hs => hDeed _ _ hs hChange

theorem Twin.kept {a : α} (h : Twin (Session.Only P) inv inv Q act) (hp : P p.session)
    (hRun : act inv p = .ok a q) : Q a ∧ P q.session := by
  have hBoth := h p p ⟨⟨rfl, hp⟩, rfl, rfl⟩
  rw [hRun] at hBoth
  cases hBoth with
  | ok hValue hBeside => exact ⟨hValue, hBeside.session.2⟩

theorem Twin.kept_halt {halt : Halt} (h : Twin (Session.Only P) inv inv Q act) (hp : P p.session)
    (hRun : act inv p = .error halt q) : P q.session := by
  have hBoth := h p p ⟨⟨rfl, hp⟩, rfl, rfl⟩
  rw [hRun] at hBoth
  cases hBoth with
  | error hBeside => exact hBeside.session.2

end Act

theorem Outcomes.state {α : Type} {P : Session → Prop} {T : Session → Session → Prop} {Q : α → Prop}
    {act : Action α} {s : Session} (h : Outcomes (Session.Only P) T Q (act s) (act s))
    (hT : ∀ t t', T t t' → P t) : P (act.state s) := by
  unfold Action.state
  generalize act s = r at h
  cases h with
  | ok _ hState => exact hT _ _ hState
  | error hState => exact hState.2

namespace Rules

variable {rules : Rules} (hRegistry : rules.registry.OfBuiltins)

include hRegistry

/-- Whatever comes of the dispatch of an event, its changes lead there. -/
theorem deliver_stirs (fuel : Nat) (d : Delivery) (s : Session) :
    Leads Session.Stir s ((rules.deliver fuel d).state s) := by
  have hT := Session.Congruence.of_stirs (P := Leads Session.Stir s) (fun _ _ hPrior => hPrior.tail)
    rules.suppressions
  exact Outcomes.state (deliver_paired hT (hRegistry.inStep hT) fuel d ⟨rfl, .refl⟩) fun _ _ h => h.2

end Rules

end EntityScript
