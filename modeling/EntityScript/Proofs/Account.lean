import EntityScript.Proofs.Course

/-! The account of the event queue. An event that was taken in occupies one slot until it leaves it:
it is delivered, it is dropped because its target is gone, it goes with an entity that it concerns, or
all events are cleared. It is delivered at most once, and a drain delivers no more events than its
limit and the number of slots. -/
namespace EntityScript

namespace EventQueue

variable {q : EventQueue} {i j : Nat} {p : Pending}

/-- Taking in another event moves none that waits. -/
theorem push_keeps (e : QueuedEvent) (h : q.slot? j = some p) : (q.push e).2.slot? j = some p := by
  rcases q.push_cases e with ⟨i, _, hFree, hPush⟩ | hPush
  · rw [hPush]
    change ({ q with slots := q.slots.setIfInBounds i (some ⟨q.next, e⟩) } : EventQueue).slot? j = _
    rw [slot?_setIfInBounds]
    split
    · rename_i hSame
      rw [hSame.1] at hFree
      cases hFree.symm.trans h
    · exact h
  · rw [hPush]
    exact h

end EventQueue

theorem EntityTable.contains_remove_self (t : EntityTable) (gone : EntityId) :
    (t.remove gone).contains gone = false := by
  apply List.any_eq_false.mpr
  intro m hm hId
  exact of_decide_eq_true (List.mem_filter.mp hm).2 (of_decide_eq_true hId)

namespace Session

variable {s t : Session} {i : Nat} {p : Pending}

theorem enqueue_queue (e : QueuedEvent) (s : Session) :
    (s.enqueue e).2.world.queue = (s.world.queue.push e).2 := by
  rw [enqueue_world]

/-- A dispatch leaves the queue alone, takes in an event, or takes an entity away. -/
theorem Stir.queue_cases (h : Stir s t) :
    t.world.queue = s.world.queue ∨ (∃ e, t.world.queue = (s.world.queue.push e).2) ∨
      ∃ id, s.world.entities.contains id = true ∧ t.world.entities.contains id = false ∧
        t.world.queue = s.world.queue.clearFor id := by
  cases h with
  | look hLook => cases hLook <;> exact .inl rfl
  | deed _ hDeed =>
      cases hDeed with
      | enqueue => exact .inr (.inl ⟨_, enqueue_queue _ _⟩)
      | _ => exact .inl rfl
  | destroy id =>
      unfold Session.destroy
      cases hEntity : s.world.entities.get? id with
      | none => exact .inl rfl
      | some e =>
          have hLive : s.world.entities.contains id = true := by
            rw [EntityTable.contains_eq, hEntity]
            rfl
          exact .inr (.inr ⟨id, hLive, EntityTable.contains_remove_self _ _, rfl⟩)
  | depth => exact .inl rfl

end Session

/-- The account of a ledger adds up: the queue is sound, no event was delivered twice, and what was
delivered is gone from the queue, unless it is being dispatched. -/
structure Ledger.Sound (a : Ledger) : Prop where
  queue : a.session.world.queue.Sound
  once : (a.delivered.map Pending.number).Nodup
  known : ∀ p ∈ a.delivered, p.number < a.session.world.queue.next
  gone : ∀ p ∈ a.delivered, ∀ i x, a.session.world.queue.slot? i = some x → x.number = p.number →
    ∃ v, a.visit = some v ∧ v.slot = i ∧ v.pending = x
  visit : ∀ v, a.visit = some v → v.pending ∈ a.delivered ∧ v.since.world.queue.Sound ∧
    v.since.world.queue.slot? v.slot = some v.pending ∧
    v.since.world.queue.Follows a.session.world.queue

/-- How an event leaves its slot. -/
inductive Rules.Releases (rules : Rules) (p : Pending) (a b : Ledger) : Prop where
  /-- It was delivered, by a dispatch that has come to its end. -/
  | delivered {v : Visit} {fuel : Nat} {verdict : Verdict} (hVisit : a.visit = some v)
      (hPending : v.pending = p) (hDelivered : p ∈ a.delivered)
      (hDone : rules.deliver fuel (p.delivery v.since) v.since = .ok verdict a.session)
  /-- The drain dropped it, because its target was gone. -/
  | dropped (hGone : a.session.world.entities.contains p.event.target = false)
  /-- It went with its target or its sender. -/
  | destroyed {id : EntityId} (hConcerns : p.event.target = id ∨ p.event.sender = some id)
      (hLive : a.session.world.entities.contains id = true)
      (hGone : b.session.world.entities.contains id = false)
  /-- All events were cleared. -/
  | cleared (hReset : b.session = a.session.onWorld World.reset)

namespace Rules

variable {rules : Rules} {admits : Session → QueuedEvent → Prop} {a b : Ledger}

/-- A move leaves the queue alone, takes in an event, or frees slots. -/
theorem Moves.queue_cases (h : rules.Moves admits a b) :
    b.session.world.queue = a.session.world.queue ∨
    (∃ e, b.session.world.queue = (a.session.world.queue.push e).2) ∨
    a.session.world.queue.Thins b.session.world.queue := by
  cases h with
  | stir hStir =>
      rcases hStir.queue_cases with hSame | hPush | ⟨id, _, _, hClear⟩
      · exact .inl hSame
      · exact .inr (.inl hPush)
      · right
        right
        dsimp only
        rw [hClear]
        exact EventQueue.free_thins _ _
  | enter => exact .inl rfl
  | leave => exact .inr (.inr (EventQueue.release_thins _ _ _))
  | drop => exact .inr (.inr (EventQueue.release_thins _ _ _))
  | queue => exact .inr (.inl ⟨_, Session.enqueue_queue _ _⟩)
  | reset => exact .inr (.inr (EventQueue.free_thins _ _))
  | spawn b =>
      left
      dsimp only
      rw [Session.spawn_world]
  | timer => exact .inl rfl
  | plain hf => exact .inl (hf _).queue

theorem Moves.follows (h : rules.Moves admits a b) :
    a.session.world.queue.Follows b.session.world.queue := by
  rcases h.queue_cases with hSame | ⟨e, hPush⟩ | hThins
  · rw [hSame]
    exact .refl _
  · rw [hPush]
    exact EventQueue.push_follows _ _
  · exact hThins.follows

theorem Moves.queue_sound (h : rules.Moves admits a b) (ha : a.session.world.queue.Sound) :
    b.session.world.queue.Sound := by
  rcases h.queue_cases with hSame | ⟨e, hPush⟩ | hThins
  · rw [hSame]
    exact ha
  · rw [hPush]
    exact EventQueue.push_sound ha e
  · exact hThins.sound ha

end Rules

namespace Ledger.Sound

variable {rules : Rules} {admits : Session → QueuedEvent → Prop} {a b : Ledger}

/-- Where nothing is delivered, the account goes on adding up. -/
theorem follows (ha : a.Sound) (hQueue : b.session.world.queue.Sound)
    (hFollows : a.session.world.queue.Follows b.session.world.queue)
    (hDelivered : b.delivered = a.delivered) (hVisit : b.visit = a.visit) : b.Sound where
  queue := hQueue
  once := hDelivered ▸ ha.once
  known p hp := by
    rw [hDelivered] at hp
    exact Nat.lt_of_lt_of_le (ha.known p hp) hFollows.next
  gone p hp i x hx hNumber := by
    rw [hDelivered] at hp
    rw [hVisit]
    rcases hFollows.slots hx with hOld | hNew
    · exact ha.gone p hp i x hOld hNumber
    · rw [hNumber] at hNew
      exact absurd (ha.known p hp) (Nat.not_lt.mpr hNew)
  visit v hv := by
    rw [hVisit] at hv
    obtain ⟨hIn, hSound, hSlot, hSince⟩ := ha.visit v hv
    exact ⟨hDelivered ▸ hIn, hSound, hSlot, hSince.trans hFollows⟩

/-- Before anything is delivered the account is that of the queue. -/
theorem start {s : Session} (hQueue : s.world.queue.Sound) : Ledger.Sound ⟨s, [], none⟩ where
  queue := hQueue
  once := .nil
  known _ hp := absurd hp List.not_mem_nil
  gone _ hp := absurd hp List.not_mem_nil
  visit v hv := by cases hv

theorem enter {s : Session} {delivered : List Pending} {i : Nat} {p : Pending}
    (ha : Ledger.Sound ⟨s, delivered, none⟩) (hSlot : s.world.queue.slot? i = some p) :
    Ledger.Sound ⟨s, delivered ++ [p], some ⟨i, p, s⟩⟩ := by
  have hNew : ∀ x ∈ delivered, x.number ≠ p.number := by
    intro x hx hNumber
    obtain ⟨v, hVisit, _⟩ := ha.gone x hx i p hSlot hNumber.symm
    cases hVisit
  constructor
  · exact ha.queue
  · rw [List.map_append, List.nodup_append]
    have hApart : ∀ n ∈ delivered.map Pending.number, ∀ k ∈ [p].map Pending.number, n ≠ k := by
      simp only [List.map_cons, List.map_nil, List.mem_singleton, List.mem_map]
      rintro _ ⟨x, hx, rfl⟩ _ rfl
      exact hNew x hx
    exact ⟨ha.once, by simp, hApart⟩
  · intro x hx
    rcases List.mem_append.mp hx with hOld | hLast
    · exact ha.known x hOld
    · cases List.mem_singleton.mp hLast
      exact ha.queue.below hSlot
  · intro x hx j y hy hNumber
    rcases List.mem_append.mp hx with hOld | hLast
    · obtain ⟨v, hVisit, _⟩ := ha.gone x hOld j y hy hNumber
      cases hVisit
    · cases List.mem_singleton.mp hLast
      cases ha.queue.apart hy hSlot hNumber
      cases hSlot.symm.trans hy
      exact ⟨_, rfl, rfl, rfl⟩
  · intro v hv
    cases hv
    exact ⟨List.mem_append_right _ List.mem_cons_self, ha.queue, hSlot, .refl _⟩

theorem leave {s since : Session} {delivered : List Pending} {i : Nat} {p : Pending}
    (ha : Ledger.Sound ⟨s, delivered, some ⟨i, p, since⟩⟩) :
    Ledger.Sound ⟨s.release i p.number, delivered, none⟩ := by
  have hThins : s.world.queue.Thins (s.release i p.number).world.queue :=
    EventQueue.release_thins _ _ _
  constructor
  · exact hThins.sound ha.queue
  · exact ha.once
  · exact fun x hx => Nat.lt_of_lt_of_le (ha.known x hx) hThins.follows.next
  · intro x hx j y hy hNumber
    obtain ⟨v, hVisit, rfl, rfl⟩ := ha.gone x hx j y (hThins.slots hy) hNumber
    cases hVisit
    exact absurd rfl (EventQueue.ne_of_slot?_release hy)
  · intro v hv
    cases hv

/-- Every move keeps the account. -/
theorem moves (ha : a.Sound) (h : rules.Moves admits a b) : b.Sound := by
  have hQueue := h.queue_sound ha.queue
  have hFollows := h.follows
  cases h with
  | enter hSlot => exact ha.enter hSlot
  | leave => exact ha.leave
  | _ => exact ha.follows hQueue hFollows rfl rfl

/-- So does every course. -/
theorem leads (ha : a.Sound) (h : Leads (rules.Moves admits) a b) : b.Sound := by
  induction h with
  | refl => exact ha
  | tail _ last ih => exact ih.moves last

/-- The event that is being dispatched is the only one of its number. -/
theorem visit_eq (ha : a.Sound) {v : Visit} (hVisit : a.visit = some v) {i : Nat} {p : Pending}
    (hSlot : a.session.world.queue.slot? i = some p) (hNumber : p.number = v.pending.number) :
    v.pending = p := by
  obtain ⟨hIn, _⟩ := ha.visit v hVisit
  obtain ⟨w, hSame, _, hPending⟩ := ha.gone v.pending hIn i p hSlot hNumber
  cases hVisit.symm.trans hSame
  exact hPending

/-- A move leaves an event in its slot, or the event has left the queue in one of four ways. -/
theorem keeps_or_releases (ha : a.Sound) (h : rules.Moves admits a b) {i : Nat} {p : Pending}
    (hp : a.session.world.queue.slot? i = some p) :
    b.session.world.queue.slot? i = some p ∨
      (b.session.world.queue.Lacks p ∧ rules.Releases p a b) := by
  rcases h.follows.stays_or_gone ha.queue hp with hStays | hLacks
  · exact .inl hStays
  right
  apply And.intro hLacks
  have hLeft := hLacks i
  cases h with
  | stir hStir =>
      dsimp only at hp hLeft
      rcases hStir.queue_cases with hSame | ⟨e, hPush⟩ | ⟨id, hLive, hGone, hClear⟩
      · rw [hSame] at hLeft
        exact absurd hp hLeft
      · rw [hPush] at hLeft
        exact absurd (EventQueue.push_keeps e hp) hLeft
      · rw [hClear] at hLeft
        rcases EventQueue.free_cases (EventQueue.concerns id) hp with hStays | hConcerns
        · exact absurd hStays hLeft
        · have hOf : p.event.target = id ∨ p.event.sender = some id := by
            simpa [EventQueue.concerns] using hConcerns
          exact .destroyed hOf hLive hGone
  | enter => exact absurd hp hLeft
  | leave hDone =>
      rename_i s since delivered slot current fuel v
      rcases EventQueue.release_cases slot current.number hp with hStays | ⟨_, hNumber⟩
      · exact absurd hStays hLeft
      · have hPending := ha.visit_eq rfl hp hNumber
        dsimp only at hPending
        subst hPending
        exact .delivered rfl rfl (ha.visit _ rfl).1 hDone
  | drop hSlot hGone =>
      rename_i s delivered slot current
      rcases EventQueue.release_cases slot current.number hp with hStays | ⟨hSame, _⟩
      · exact absurd hStays hLeft
      · subst hSame
        cases hSlot.symm.trans hp
        exact .dropped hGone
  | queue =>
      dsimp only at hLeft
      rw [Session.enqueue_queue] at hLeft
      exact absurd (EventQueue.push_keeps _ hp) hLeft
  | reset => exact .cleared rfl
  | spawn b =>
      dsimp only at hLeft
      rw [Session.spawn_world] at hLeft
      exact absurd hp hLeft
  | timer => exact absurd hp hLeft
  | plain hf =>
      rename_i s _ _
      have hSame := congrArg (EventQueue.slot? · i) (hf s.world).queue
      exact absurd (hSame.trans hp) hLeft

end Ledger.Sound

namespace Rules

variable {rules : Rules} {admits : Session → QueuedEvent → Prop}

/-- Behind the visit of a slot its event is gone from there. -/
theorem visitSlot_releases {fuel i : Nat} {s t : Session} {sent : Bool} {p : Pending}
    (hSlot : s.world.queue.slot? i = some p) (hRun : rules.visitSlot fuel i s = .ok sent t) :
    t.world.queue.slot? i ≠ some p := by
  have hReleased (u : Session) : (u.release i p.number).world.queue.slot? i ≠ some p :=
    fun hStill => EventQueue.ne_of_slot?_release hStill rfl
  rw [visitSlot_apply, hSlot] at hRun
  dsimp only at hRun
  split at hRun
  · split at hRun
    · cases hRun
      exact hReleased _
    · cases hRun
  · cases hRun
    exact hReleased _

theorem follows_of_leads {a b : Ledger} (h : Leads (rules.Moves admits) a b) :
    a.session.world.queue.Follows b.session.world.queue := by
  induction h with
  | refl => exact .refl _
  | tail _ last ih => exact ih.trans last.follows

theorem queue_sound_of_leads {a b : Ledger} (h : Leads (rules.Moves admits) a b)
    (ha : a.session.world.queue.Sound) : b.session.world.queue.Sound := by
  induction h with
  | refl => exact ha
  | tail _ last ih => exact last.queue_sound ih

theorem Delivers.rests {α : Type} {act : Action α} {tells : α → Nat → Prop} {most : Nat → Prop}
    {s t : Session} {a : α} (h : rules.Delivers admits act tells most s) (hRun : act s = .ok a t) :
    rules.Rests admits ⟨s, [], none⟩ t := by
  have hAct := h []
  rw [hRun] at hAct
  obtain ⟨_, _, _, hLeads⟩ := hAct
  exact ⟨_, hLeads⟩

/-- Without a limit, no event is left that was in a slot before the slots were visited. -/
theorem drainSlots_clears (hRegistry : rules.registry.OfBuiltins) {fuel : Nat} {slots : List Nat}
    {before n : Nat} {s t : Session} (hQueue : s.world.queue.Sound)
    (hRun : rules.drainSlots fuel 0 before slots s = .ok n t) {i : Nat} {p : Pending}
    (hIn : i ∈ slots) (hp : s.world.queue.slot? i = some p) : t.world.queue.Lacks p := by
  induction slots generalizing before s i p with
  | nil => cases hIn
  | cons j rest ih =>
      unfold drainSlots at hRun
      rw [Action.bind_apply] at hRun
      cases hVisit : rules.visitSlot fuel j s with
      | error h u =>
          rw [hVisit] at hRun
          cases hRun
      | ok sent u =>
          rw [hVisit] at hRun
          obtain ⟨before', hRest⟩ :
              ∃ before', rules.drainSlots fuel 0 before' rest u = .ok n t := by
            cases sent with
            | false => exact ⟨before, hRun⟩
            | true => exact ⟨before + 1, hRun⟩
          obtain ⟨_, hLeads⟩ :=
            (@visitSlot_delivers rules (fun _ _ => True) hRegistry fuel j s).rests hVisit
          obtain ⟨_, hOn⟩ :=
            (@drainSlots_delivers rules (fun _ _ => True) hRegistry fuel 0 rest before'
              (fun h => absurd h (Nat.lt_irrefl 0)) u).rests hRest
          have hFirst := follows_of_leads hLeads
          rcases hFirst.stays_or_gone hQueue hp with hStays | hGone
          · rcases List.mem_cons.mp hIn with rfl | hLater
            · exact absurd hStays (visitSlot_releases hp hVisit)
            · exact ih (queue_sound_of_leads hLeads hQueue) hRest hLater hStays
          · exact (follows_of_leads hOn).lacks
              (Nat.lt_of_lt_of_le (hQueue.below hp) hFirst.next) hGone

/-- A drain tells how many events it delivered: no more than the slots, nor than its limit if it has
one. Without a limit, none of the events is left that waited when it began. Both bounds also hold of a
drain that halts. -/
def Drains (rules : Rules) (admits : Session → QueuedEvent → Prop) (fuel limit : Nat) (a : Ledger) :
    Prop :=
  match rules.drain fuel limit a.session with
  | .ok n t => ∃ new : List Pending,
      Leads (rules.Moves admits) a ⟨t, a.delivered ++ new, none⟩ ∧ n = new.length ∧
      n ≤ a.session.world.queue.capacity ∧ (0 < limit → n ≤ limit) ∧
      (limit = 0 → ∀ i p, a.session.world.queue.slot? i = some p → t.world.queue.Lacks p)
  | .error _ t => ∃ (new : List Pending) (visit : Option Visit),
      Leads (rules.Moves admits) a ⟨t, a.delivered ++ new, visit⟩ ∧
      new.length ≤ a.session.world.queue.capacity ∧ (0 < limit → new.length ≤ limit)

theorem drains (hRegistry : rules.registry.OfBuiltins) {a : Ledger} (ha : a.Sound)
    (hVisit : a.visit = none) (fuel limit : Nat) : rules.Drains admits fuel limit a := by
  obtain ⟨s, delivered, _⟩ := a
  cases hVisit
  have hDrain := @drain_delivers rules admits hRegistry fuel limit s delivered
  unfold Drains
  cases hRun : rules.drain fuel limit s with
  | ok n t =>
      rw [hRun] at hDrain
      obtain ⟨new, hCount, ⟨hCapacity, hLimit⟩, hLeads⟩ := hDrain
      refine ⟨new, hLeads, hCount, hCount ▸ hCapacity, hCount ▸ hLimit, ?_⟩
      rintro rfl i p hp
      have hIn : i ∈ List.range s.world.queue.capacity :=
        List.mem_range.mpr (EventQueue.lt_capacity hp)
      exact drainSlots_clears hRegistry ha.queue hRun hIn hp
  | error h t =>
      rw [hRun] at hDrain
      obtain ⟨new, visit, ⟨hCapacity, hLimit⟩, hLeads⟩ := hDrain
      exact ⟨new, visit, hLeads, hCapacity, hLimit⟩

/-- What holds of the event queue wherever requests lead. -/
structure Accounts (rules : Rules) (admits : Session → QueuedEvent → Prop) (a : Ledger) : Prop where
  sound : a.Sound
  /-- An event that is taken in occupies one slot, which was free. -/
  taken : ∀ e, (a.session.enqueue e).1 = true →
    ∃ i, a.session.world.queue.slot? i = none ∧
      (a.session.enqueue e).2.world.queue.slot? i = some ⟨a.session.world.queue.next, e⟩ ∧
      ∀ j p, (a.session.enqueue e).2.world.queue.slot? j = some p →
        p.number = a.session.world.queue.next → j = i
  /-- It stays there, or it is gone for a reason. -/
  leaves : ∀ {b i p}, rules.Moves admits a b → a.session.world.queue.slot? i = some p →
    b.session.world.queue.slot? i = some p ∨
      (b.session.world.queue.Lacks p ∧ rules.Releases p a b)
  drains : a.visit = none → ∀ fuel limit, rules.Drains admits fuel limit a

theorem accounts_of_sound (hRegistry : rules.registry.OfBuiltins) {a : Ledger} (ha : a.Sound) :
    rules.Accounts admits a where
  sound := ha
  taken e hTaken := by
    rw [Session.enqueue_queue]
    exact EventQueue.push_occupies ha.queue hTaken
  leaves h hp := ha.keeps_or_releases h hp
  drains hVisit fuel limit := drains hRegistry ha hVisit fuel limit

/-- Whatever a game asks of a session, there is a course of moves to where it comes, also at a halt.
At every point of every such course each event that was taken in occupies one slot until it leaves it:
delivered once, dropped by the drain because its target was gone, cleared with its target or its
sender, or cleared with all events. -/
theorem queue_accounted (hRegistry : rules.registry.OfBuiltins) {s : Session}
    (hQueue : s.world.queue.Sound) (fuel : Nat) (requests : List Request) :
    (∃ last : Ledger, last.session = (rules.serve fuel requests).state s ∧
      Leads (rules.Moves fun _ _ => True) ⟨s, [], none⟩ last) ∧
    ∀ a, Leads (rules.Moves fun _ _ => True) ⟨s, [], none⟩ a →
      rules.Accounts (fun _ _ => True) a := by
  constructor
  · have hAdmitted := rules.admitted_of_all fuel (fun _ _ => True.intro) requests s
    have hServed := serve_outcomes (rests_upheld hRegistry ⟨s, [], none⟩) hRegistry fuel
      ⟨rfl, [], .refl⟩ hAdmitted
    exact hServed.state fun _ _ h => h.2.comes
  · exact fun a hLeads => accounts_of_sound hRegistry ((Ledger.Sound.start hQueue).leads hLeads)

/-- Two entities and three events: one for the first, which destroys itself when it gets it, one for the
second that the first sent, and one more for the second. -/
def farewellRequests : List Request :=
  [.spawn { className := "npc"
            script := some (.ofNormal "npc" "on hear \x7b\n destroy self\n\x7d\n") },
    .spawn { className := "npc"
             script := some (.ofNormal "npc" "on hear \x7b\n accept\n\x7d\n") },
    .queue ⟨none, ⟨0⟩, .parse "hear", .none⟩, .queue ⟨some ⟨0⟩, ⟨1⟩, .parse "hear", .none⟩,
    .queue ⟨none, ⟨1⟩, .parse "hear", .none⟩, .drain 0]

set_option maxRecDepth 100000 in
/-- All three leave the queue; the one that was sent by the first entity goes with it. -/
theorem queue_accounted_farewell :
    (EventQueue.ofCapacity 3).Sound ∧
    ∃ last : Ledger, last.Sound ∧ last.session.world.queue.next = 3 ∧
      last.session.world.queue.size = 0 ∧ last.session.world.entities.ids = [⟨1⟩] ∧
      Leads (plain.Moves fun _ _ => True)
        ⟨⟨.ofConfig { queueCapacity := 3 }, .silent, #[]⟩, [], none⟩ last := by
  have hQueue := EventQueue.ofCapacity_sound 3
  obtain ⟨⟨last, hLast, hLeads⟩, hAccounts⟩ := @queue_accounted plain Registry.builtins_ofBuiltins
    ⟨.ofConfig { queueCapacity := 3 }, .silent, #[]⟩ hQueue 9 farewellRequests
  have hEnd : (fun t : Session => (t.world.queue.next, t.world.queue.size, t.world.entities.ids))
      ((plain.serve 9 farewellRequests).state ⟨.ofConfig { queueCapacity := 3 }, .silent, #[]⟩) =
      (3, 0, [⟨1⟩]) := by decide +kernel
  rw [← hLast] at hEnd
  simp only [Prod.mk.injEq] at hEnd
  exact ⟨hQueue, last, (hAccounts last hLeads).sound, hEnd.1, hEnd.2.1, hEnd.2.2, hLeads⟩

end Rules

end EntityScript
