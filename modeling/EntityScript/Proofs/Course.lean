import EntityScript.Proofs.Stirring

/-! The course that a session takes while requests are served, with an account of its event queue.
While the event of a slot is dispatched it stays there, and the scripts may queue and destroy; what
was delivered is written down when its dispatch begins. -/
namespace EntityScript

/-- The slot whose event is being dispatched. -/
structure Visit where
  slot : Nat
  pending : Pending
  /-- The session in which the dispatch began. -/
  since : Session

/-- A session with the events that were delivered so far. -/
structure Ledger where
  session : Session
  delivered : List Pending := []
  visit : Option Visit := none

/-- The delivery of a waiting event; a sender that is gone is left out. -/
def Pending.delivery (p : Pending) (s : Session) : Delivery :=
  { sender := p.event.sender.filter s.world.entities.contains, target := p.event.target
    event := p.event.event, parameters := p.event.parameters }

/-- Frees a slot, unless it was filled again with another event. -/
def Session.release (i number : Nat) (s : Session) : Session :=
  s.onWorld fun w => { w with queue := w.queue.release i number }

/-- One move of a session that serves requests; `admits` tells what a game may queue. -/
inductive Rules.Moves (rules : Rules) (admits : Session → QueuedEvent → Prop) :
    Ledger → Ledger → Prop where
  /-- A change that a dispatch makes, or an entity is taken out of the game. -/
  | stir {s t : Session} {delivered : List Pending} {visit : Option Visit} (h : Session.Stir s t) :
      Moves rules admits ⟨s, delivered, visit⟩ ⟨t, delivered, visit⟩
  /-- The drain begins to dispatch the event of a slot. -/
  | enter {s : Session} {delivered : List Pending} {i : Nat} {p : Pending}
      (hSlot : s.world.queue.slot? i = some p)
      (hLive : s.world.entities.contains p.event.target = true) :
      Moves rules admits ⟨s, delivered, none⟩ ⟨s, delivered ++ [p], some ⟨i, p, s⟩⟩
  /-- The dispatch has come to its end, and the slot is freed. -/
  | leave {s since : Session} {delivered : List Pending} {i : Nat} {p : Pending} {fuel : Nat}
      {v : Verdict} (hDone : rules.deliver fuel (p.delivery since) since = .ok v s) :
      Moves rules admits ⟨s, delivered, some ⟨i, p, since⟩⟩ ⟨s.release i p.number, delivered, none⟩
  /-- The drain drops an event whose target is gone. -/
  | drop {s : Session} {delivered : List Pending} {i : Nat} {p : Pending}
      (hSlot : s.world.queue.slot? i = some p)
      (hGone : s.world.entities.contains p.event.target = false) :
      Moves rules admits ⟨s, delivered, none⟩ ⟨s.release i p.number, delivered, none⟩
  /-- The game queues an event. -/
  | queue {s : Session} {delivered : List Pending} {e : QueuedEvent} (hAdmits : admits s e) :
      Moves rules admits ⟨s, delivered, none⟩ ⟨(s.enqueue e).2, delivered, none⟩
  | reset {s : Session} {delivered : List Pending} :
      Moves rules admits ⟨s, delivered, none⟩ ⟨s.onWorld World.reset, delivered, none⟩
  | spawn {s : Session} {delivered : List Pending} (b : Blueprint) :
      Moves rules admits ⟨s, delivered, none⟩ ⟨(s.spawn b).2, delivered, none⟩
  /-- A timer is moved on, or taken out of its slot. -/
  | timer {s : Session} {delivered : List Pending} {i : Nat} {slot : Option Timer}
      (hSlot : ∀ moved, slot = some moved →
        ∃ t, s.world.timers.slot? i = some t ∧ moved.owner = t.owner) :
      Moves rules admits ⟨s, delivered, none⟩ ⟨s.setTimer i slot, delivered, none⟩
  | plain {s : Session} {delivered : List Pending} {f : World → World}
      (hf : ∀ w : World, w.Holds (f w)) :
      Moves rules admits ⟨s, delivered, none⟩ ⟨s.onWorld f, delivered, none⟩

namespace Rules

variable {rules : Rules} {admits : Session → QueuedEvent → Prop} {start : Ledger}

/-- What a dispatch changes, one move after the other. -/
theorem moves_of_stirs {s t : Session} (h : Leads Session.Stir s t) (delivered : List Pending)
    (visit : Option Visit) :
    Leads (rules.Moves admits) ⟨s, delivered, visit⟩ ⟨t, delivered, visit⟩ := by
  induction h with
  | refl => exact .refl
  | tail _ last ih => exact ih.tail (.stir last)

/-- The course has come to a session in which no event is being dispatched. -/
def Rests (rules : Rules) (admits : Session → QueuedEvent → Prop) (start : Ledger) (s : Session) :
    Prop :=
  ∃ delivered, Leads (rules.Moves admits) start ⟨s, delivered, none⟩

/-- The course has come to a session. -/
def Comes (rules : Rules) (admits : Session → QueuedEvent → Prop) (start : Ledger) (s : Session) :
    Prop :=
  ∃ last : Ledger, last.session = s ∧ Leads (rules.Moves admits) start last

theorem Rests.comes {s : Session} (h : rules.Rests admits start s) : rules.Comes admits start s := by
  obtain ⟨delivered, hRun⟩ := h
  exact ⟨_, rfl, hRun⟩

theorem Rests.tail {s t : Session} (h : rules.Rests admits start s)
    (hLast : ∀ delivered, rules.Moves admits ⟨s, delivered, none⟩ ⟨t, delivered, none⟩) :
    rules.Rests admits start t := by
  obtain ⟨delivered, hRun⟩ := h
  exact ⟨delivered, hRun.tail (hLast delivered)⟩

/-- What a part of a drain adds to the account: so many events delivered as its value tells, and at
most as many as `most` allows, also if it halts. -/
def Delivers {α : Type} (rules : Rules) (admits : Session → QueuedEvent → Prop) (act : Action α)
    (tells : α → Nat → Prop) (most : Nat → Prop) (s : Session) : Prop :=
  ∀ delivered, match act s with
    | .ok a t => ∃ new : List Pending, tells a new.length ∧ most new.length ∧
        Leads (rules.Moves admits) ⟨s, delivered, none⟩ ⟨t, delivered ++ new, none⟩
    | .error _ t => ∃ (new : List Pending) (visit : Option Visit), most new.length ∧
        Leads (rules.Moves admits) ⟨s, delivered, none⟩ ⟨t, delivered ++ new, visit⟩

theorem Delivers.pure {α : Type} {a : α} {tells : α → Nat → Prop} {most : Nat → Prop} {s : Session}
    (hTells : tells a 0) (hMost : most 0) : rules.Delivers admits (Pure.pure a) tells most s :=
  fun delivered => ⟨[], hTells, hMost, by rw [List.append_nil]; exact .refl⟩

theorem Delivers.mono {α : Type} {act : Action α} {tells tells' : α → Nat → Prop}
    {most most' : Nat → Prop} {s : Session} (h : rules.Delivers admits act tells most s)
    (hTells : ∀ a k, tells a k → tells' a k) (hMost : ∀ k, most k → most' k) :
    rules.Delivers admits act tells' most' s := by
  intro delivered
  have hAct := h delivered
  generalize act s = r at hAct ⊢
  cases r with
  | ok a t =>
      obtain ⟨new, hTold, hMany, hLeads⟩ := hAct
      exact ⟨new, hTells _ _ hTold, hMost _ hMany, hLeads⟩
  | error h t =>
      obtain ⟨new, visit, hMany, hLeads⟩ := hAct
      exact ⟨new, visit, hMost _ hMany, hLeads⟩

theorem Delivers.bind {α β : Type} {x : Action α} {f : α → Action β} {tells : α → Nat → Prop}
    {tells' : β → Nat → Prop} {most most' : Nat → Prop} {s : Session}
    (hx : rules.Delivers admits x tells most s) (hMost : ∀ k, most k → most' k)
    (hf : ∀ a k t, tells a k → most k →
      rules.Delivers admits (f a) (fun b k' => tells' b (k + k')) (fun k' => most' (k + k')) t) :
    rules.Delivers admits (x >>= f) tells' most' s := by
  intro delivered
  have hFirst := hx delivered
  rw [Action.bind_apply]
  cases hRun : x s with
  | error h t =>
      rw [hRun] at hFirst
      obtain ⟨new, visit, hMany, hLeads⟩ := hFirst
      exact ⟨new, visit, hMost _ hMany, hLeads⟩
  | ok a t =>
      rw [hRun] at hFirst
      obtain ⟨new, hTold, hMany, hLeads⟩ := hFirst
      have hSecond := hf a new.length t hTold hMany (delivered ++ new)
      dsimp only
      cases hRest : f a t with
      | error h u =>
          rw [hRest] at hSecond
          obtain ⟨more, visit, hAll, hOn⟩ := hSecond
          refine ⟨new ++ more, visit, by rw [List.length_append]; exact hAll, ?_⟩
          rw [← List.append_assoc]
          exact hLeads.trans hOn
      | ok b u =>
          rw [hRest] at hSecond
          obtain ⟨more, hTold', hAll, hOn⟩ := hSecond
          refine ⟨new ++ more, by rw [List.length_append]; exact hTold',
            by rw [List.length_append]; exact hAll, ?_⟩
          rw [← List.append_assoc]
          exact hLeads.trans hOn

/-- The cases of the visit of a slot. -/
theorem visitSlot_apply (rules : Rules) (fuel i : Nat) (s : Session) :
    rules.visitSlot fuel i s =
      match s.world.queue.slot? i with
      | none => .ok false s
      | some p =>
        if s.world.entities.contains p.event.target then
          match rules.deliver fuel (p.delivery s) s with
          | .ok _ t => .ok true (t.release i p.number)
          | .error h t => .error h t
        else .ok false ((s.write .trace .queue ("skipped " ++ p.event.event.shown ++
          " for destroyed " ++ p.event.target.shown)).release i p.number) := by
  unfold visitSlot
  rw [Action.get_bind]
  cases s.world.queue.slot? i with
  | none => rfl
  | some p =>
      dsimp only
      split
      · change ((rules.deliver fuel (p.delivery s) >>= fun _ => pure ()) >>= fun _ =>
          onQueue (·.release i p.number) >>= fun _ => pure true : Action Bool) s = _
        rw [Action.bind_apply, Action.bind_apply]
        cases rules.deliver fuel (p.delivery s) s <;> rfl
      · rfl

variable (hRegistry : rules.registry.OfBuiltins)

include hRegistry

/-- The visit of a slot delivers its event, or drops it, or finds none. -/
theorem visitSlot_delivers (fuel i : Nat) (s : Session) :
    rules.Delivers admits (rules.visitSlot fuel i) (fun sent k => k = sent.toNat) (· ≤ 1) s := by
  intro delivered
  rw [visitSlot_apply]
  cases hSlot : s.world.queue.slot? i with
  | none => exact ⟨[], rfl, Nat.zero_le _, by rw [List.append_nil]; exact .refl⟩
  | some p =>
      dsimp only
      by_cases hLive : s.world.entities.contains p.event.target = true
      · rw [if_pos hLive]
        have hStirs := deliver_stirs hRegistry fuel (p.delivery s) s
        have hEntered : Leads (rules.Moves admits) ⟨s, delivered, none⟩
            ⟨(rules.deliver fuel (p.delivery s)).state s, delivered ++ [p], some ⟨i, p, s⟩⟩ :=
          (moves_of_stirs hStirs _ _).head (.enter hSlot hLive)
        unfold Action.state at hEntered
        cases hRun : rules.deliver fuel (p.delivery s) s with
        | ok v t =>
            rw [hRun] at hEntered
            exact ⟨[p], rfl, Nat.le_refl _, hEntered.tail (.leave hRun)⟩
        | error h t =>
            rw [hRun] at hEntered
            exact ⟨[p], _, Nat.le_refl _, hEntered⟩
      · rw [if_neg hLive]
        refine ⟨[], rfl, Nat.zero_le _, ?_⟩
        rw [List.append_nil]
        refine .tail (.tail .refl (.stir (.look (@Session.Look.write .empty _ _ _ _)))) (.drop hSlot ?_)
        exact Bool.not_eq_true _ ▸ hLive

theorem drainSlots_delivers (fuel limit : Nat) (slots : List Nat) (before : Nat)
    (hBefore : 0 < limit → before < limit) (s : Session) :
    rules.Delivers admits (rules.drainSlots fuel limit before slots) (fun n k => n = before + k)
      (fun k => k ≤ slots.length ∧ (0 < limit → before + k ≤ limit)) s := by
  induction slots generalizing before s with
  | nil => exact .pure rfl ⟨Nat.le_refl _, fun h => Nat.le_of_lt (hBefore h)⟩
  | cons i rest ih =>
      unfold drainSlots
      refine (visitSlot_delivers hRegistry fuel i s).bind
        (fun k hk => ⟨Nat.le_trans hk (Nat.succ_le_succ (Nat.zero_le _)), fun h => ?_⟩) ?_
      · have := hBefore h
        omega
      intro sent k t hSent hk
      cases hSent
      cases sent with
      | false =>
          refine (ih before hBefore t).mono (fun n k hn => ?_) fun k hk => ⟨?_, fun h => ?_⟩
          · rw [hn, Bool.toNat_false, Nat.zero_add]
          · have := hk.1
            simp only [Bool.toNat_false, List.length_cons]
            omega
          · have := hk.2 h
            simp only [Bool.toNat_false]
            omega
      | true =>
          simp only [if_true, Bool.toNat_true, List.length_cons]
          split
          · refine .pure rfl ⟨by omega, fun h => ?_⟩
            have := hBefore h
            omega
          · rename_i hOn
            have hRoom : 0 < limit → before + 1 < limit := by
              intro h
              simpa [h] using hOn
            refine (ih (before + 1) hRoom t).mono (fun n k hn => by omega) fun k hk => ⟨?_, fun h => ?_⟩
            · have := hk.1
              omega
            · have := hk.2 h
              omega

/-- A drain gives the number of events that it delivered: no more than there are slots, and no more
than its limit. -/
theorem drain_delivers (fuel limit : Nat) (s : Session) :
    rules.Delivers admits (rules.drain fuel limit) (fun n k => n = k)
      (fun k => k ≤ s.world.queue.capacity ∧ (0 < limit → k ≤ limit)) s := by
  have hSlots := @drainSlots_delivers rules admits hRegistry fuel limit
    (List.range s.world.queue.capacity) 0 (fun h => h) s
  simp only [List.length_range, Nat.zero_add] at hSlots
  exact hSlots

/-- Requests keep to the course. -/
theorem rests_upheld (start : Ledger) : rules.Upholds rules.suppressions admits
    (Session.Only (rules.Comes admits start)) (Session.Only (rules.Rests admits start)) where
  toCongruence := .of_stirs (fun _ _ hs h => hs.tail fun _ => .stir h) _
  halt _ _ h := ⟨h.1, h.2.comes⟩
  plain hf h := h.map fun hs => hs.tail fun _ => .plain fun w => (hf w).toHolds
  spawn b _ _ h := h.map (f := fun s => (s.spawn b).2) fun hs => hs.tail fun _ => .spawn b
  timer i slot _ _ h hSlot := h.map (f := fun s => s.setTimer i slot) fun hs =>
    hs.tail fun _ => .timer fun moved hMoved =>
      (hSlot moved hMoved).imp fun _ hKept => hKept.imp_right And.left
  queue e _ _ h hAdmits := h.map (f := fun s => (s.enqueue e).2) fun hs =>
    hs.tail fun _ => .queue hAdmits
  reset h := h.map fun hs => hs.tail fun _ => .reset
  drain fuel limit {s s'} h := by
    obtain ⟨rfl, delivered, hRun⟩ := h
    have hDrain := @drain_delivers rules admits hRegistry fuel limit s' delivered
    change Outcomes _ _ _ (rules.drain fuel limit s') (rules.drain fuel limit s')
    generalize rules.drain fuel limit s' = r at hDrain ⊢
    cases r with
    | ok n t =>
        obtain ⟨new, _, _, hLeads⟩ := hDrain
        exact .ok True.intro ⟨rfl, _, hRun.trans hLeads⟩
    | error halt t =>
        obtain ⟨new, visit, _, hLeads⟩ := hDrain
        exact .error ⟨rfl, _, rfl, hRun.trans hLeads⟩

end Rules

end EntityScript
