import EntityScript.Proofs.Course

/-! Everything that becomes of a session, one change after the other: what a dispatch changes, and what
requests change besides. Requests lead from session to session by these changes alone, also where they
halt, so what each change keeps holds wherever requests lead. -/
namespace EntityScript

/-- One change of a session that serves requests. -/
inductive Session.Change : Session → Session → Prop where
  /-- A change that a dispatch makes, or an entity is taken out of the game. -/
  | stir {s t : Session} (h : Session.Stir s t) : Change s t
  | release (i number : Nat) (s : Session) : Change s (s.release i number)
  | queue (e : QueuedEvent) (s : Session) : Change s (s.enqueue e).2
  | spawn (b : Blueprint) (s : Session) : Change s (s.spawn b).2
  | reset (s : Session) : Change s (s.onWorld World.reset)
  /-- A timer is moved on, or taken out of its slot. -/
  | timer {s : Session} {i : Nat} {slot : Option Timer}
      (hSlot : ∀ moved, slot = some moved →
        ∃ t, s.world.timers.slot? i = some t ∧ moved.HasKey t.owner t.name) :
      Change s (s.setTimer i slot)
  /-- A variable is written, time passes, or the heartbeat goes on. -/
  | plain {s : Session} {f : World → World} (hf : ∀ w : World, w.Settles (f w)) :
      Change s (s.onWorld f)

/-- The action leads from session to session by changes, to a value or to a halt. -/
def Action.Changes {α : Type} (act : Action α) : Prop :=
  ∀ s, Leads Session.Change s (act.state s)

namespace Action

variable {α β : Type} {x : Action α} {f : α → Action β}

theorem state_of_ok {a : α} {s t : Session} (h : x s = .ok a t) : x.state s = t := by
  rw [state, h]

namespace Changes

theorem pure (a : α) : Changes (Pure.pure a) := fun _ => .refl

theorem get : Changes (MonadState.get : Action Session) := fun _ => .refl

theorem update {f : Session → Session} (hf : ∀ s, Session.Change s (f s)) :
    Changes (modify f : Action Unit) := fun s => .tail .refl (hf s)

theorem bind (hx : Changes x) (hf : ∀ a, Changes (f a)) : Changes (x >>= f) := by
  intro s
  have hFirst := hx s
  unfold Action.state at hFirst ⊢
  rw [bind_apply]
  cases hRun : x s with
  | error h t =>
      rw [hRun] at hFirst
      exact hFirst
  | ok a t =>
      rw [hRun] at hFirst
      exact hFirst.trans (hf a t)

theorem discard (hx : Changes x) : Changes (Functor.discard x) := hx.bind fun _ => .pure _

theorem leads (hx : Changes x) {a : α} {s t : Session} (h : x s = .ok a t) :
    Leads Session.Change s t := by
  rw [← state_of_ok h]
  exact hx s

end Changes

end Action

namespace Rules

open EntityScript.Action (Changes)

variable {rules : Rules} (hRegistry : rules.registry.OfBuiltins)

include hRegistry

theorem deliver_changes (fuel : Nat) (d : Delivery) : Changes (rules.deliver fuel d) :=
  fun s => (deliver_stirs hRegistry fuel d s).mono fun _ _ => .stir

theorem visitSlot_changes (fuel i : Nat) : Changes (rules.visitSlot fuel i) := by
  refine Changes.get.bind fun s => ?_
  dsimp only
  split
  · exact .pure _
  · rename_i p _
    have hRelease : Changes (onQueue (·.release i p.number)) := .update (.release i p.number)
    split
    · exact (deliver_changes hRegistry fuel _).discard.bind fun _ => hRelease.bind fun _ => .pure _
    · exact Changes.bind (.update fun _ => .stir (.look (@Session.Look.write .empty _ _ _ _))) fun _ =>
        hRelease.bind fun _ => .pure _

theorem drainSlots_changes (fuel limit : Nat) (slots : List Nat) (delivered : Nat) :
    Changes (rules.drainSlots fuel limit delivered slots) := by
  induction slots generalizing delivered with
  | nil => exact .pure _
  | cons i rest ih =>
      refine (visitSlot_changes hRegistry fuel i).bind fun sent => ?_
      split
      · split
        · exact .pure _
        · exact ih _
      · exact ih _

theorem drain_changes (fuel limit : Nat) : Changes (rules.drain fuel limit) :=
  Changes.get.bind fun _ => drainSlots_changes hRegistry fuel limit _ _

/-- Requests keep to the changes. -/
theorem changes_upheld (start : Session) : rules.Upholds rules.suppressions (fun _ _ => True)
    (Session.Only (Leads Session.Change start)) (Session.Only (Leads Session.Change start)) where
  toCongruence := .of_stirs (fun _ _ hs h => hs.tail (.stir h)) _
  halt _ _ h := h
  plain hf h := h.map fun hs => hs.tail (.plain hf)
  spawn b _ _ h := h.map (f := fun s => (s.spawn b).2) fun hs => hs.tail (.spawn b _)
  timer i slot _ _ h hSlot := h.map (f := fun s => s.setTimer i slot) fun hs => hs.tail (.timer hSlot)
  queue e _ _ h _ := h.map (f := fun s => (s.enqueue e).2) fun hs => hs.tail (.queue e _)
  reset h := h.map fun hs => hs.tail (.reset _)
  drain fuel limit {s s'} h := by
    obtain ⟨rfl, hs⟩ := h
    have hDrain := hs.trans (drain_changes hRegistry fuel limit s')
    change Outcomes _ _ _ (rules.drain fuel limit s') (rules.drain fuel limit s')
    unfold Action.state at hDrain
    generalize rules.drain fuel limit s' = r at hDrain ⊢
    cases r with
    | ok n t => exact .ok True.intro ⟨rfl, hDrain⟩
    | error halt t => exact .error ⟨rfl, hDrain⟩

theorem commands_upheld (start : Session) : rules.registry.InStep rules.suppressions
    rules.suppressions (Session.Only (Leads Session.Change start)) :=
  hRegistry.inStep (changes_upheld hRegistry start).toCongruence

theorem visitTimer_changes (fuel : Nat) (now : Duration) (i : Nat) :
    Changes (rules.visitTimer fuel now i) := by
  intro s
  exact (visitTimer_outcomes (changes_upheld hRegistry s) (commands_upheld hRegistry s) fuel now i
    ⟨rfl, .refl⟩).state fun _ _ h => h.2

theorem beat_changes (fuel : Nat) : Changes (rules.beat fuel) := by
  intro s
  exact (beat_outcomes (changes_upheld hRegistry s) (commands_upheld hRegistry s) fuel
    ⟨rfl, .refl⟩).state fun _ _ h => h.2

/-- Whatever is asked of a session, also to a halt. -/
theorem serve_changes (fuel : Nat) (requests : List Request) : Changes (rules.serve fuel requests) := by
  intro s
  have hAdmitted := rules.admitted_of_all fuel (fun _ _ => True.intro) requests s
  exact (serve_outcomes (changes_upheld hRegistry s) hRegistry fuel ⟨rfl, .refl⟩ hAdmitted).state
    fun _ _ h => h.2

end Rules

/-- A session has come of a new one. -/
def Rules.Attains (rules : Rules) (s : Session) : Prop :=
  ∃ host log, Leads Session.Change ⟨.ofConfig rules.config, host, log⟩ s

namespace Rules

variable {rules : Rules} {s t : Session}

theorem Attains.leads (hs : rules.Attains s) (h : Leads Session.Change s t) : rules.Attains t := by
  obtain ⟨host, log, hFirst⟩ := hs
  exact ⟨host, log, hFirst.trans h⟩

/-- A session with a new entity. -/
theorem Attains.spawn (hs : rules.Attains s) (b : Blueprint) : rules.Attains (s.spawn b).2 :=
  hs.leads (.tail .refl (.spawn b s))

/-- A session in which a timer of a live entity was started. -/
theorem Attains.startTimer (hs : rules.Attains s) {x : Timer}
    (hLive : s.world.entities.contains x.owner = true) (hStart : x.start = s.world.clock) :
    rules.Attains (s.startTimer x) := by
  let inv : Invocation := { script := x.script, entity := x.owner, event := .line }
  exact hs.leads (.tail .refl (.stir (@Session.Stir.deed inv _ _ hLive (.start rfl rfl hStart))))

theorem serve_attains (hRegistry : rules.registry.OfBuiltins) (host : Host) (log : Array LogLine)
    (fuel : Nat) (requests : List Request) :
    rules.Attains ((rules.serve fuel requests).state ⟨.ofConfig rules.config, host, log⟩) :=
  ⟨host, log, serve_changes hRegistry fuel requests _⟩

/-- What a new session has and each change keeps, holds wherever requests lead. -/
theorem Attains.invariant (hs : rules.Attains s) {P : Session → Prop}
    (hNew : ∀ host log, P ⟨.ofConfig rules.config, host, log⟩)
    (hChange : ∀ {s t}, P s → Session.Change s t → P t) : P s := by
  obtain ⟨host, log, hLeads⟩ := hs
  exact hLeads.keeps hChange (hNew host log)

end Rules

end EntityScript
