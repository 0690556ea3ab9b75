import EntityScript.Engine
import EntityScript.Proofs.Course
import EntityScript.Proofs.Handlers

/-! Timers and queued events belong to live entities. Destroying an entity takes its timers and its
queued events along, and a dispatch starts timers and queues events only for its own entity, while that
is live. -/
namespace EntityScript

namespace EntityTable

/-- Besides the entity that is taken out, every entity stays. -/
theorem contains_remove_ne {t : EntityTable} {gone id : EntityId} (hOther : id ≠ gone)
    (h : t.contains id = true) : (t.remove gone).contains id = true := by
  obtain ⟨m, hm, hId⟩ := List.any_eq_true.mp h
  refine List.any_eq_true.mpr ⟨m, List.mem_filter.mpr ⟨hm, ?_⟩, hId⟩
  rw [of_decide_eq_true hId]
  exact decide_eq_true hOther

theorem contains_spawn (t : EntityTable) (e : Entity) {id : EntityId} (h : t.contains id = true) :
    (t.spawn e).2.contains id = true := by
  obtain ⟨m, hm, hId⟩ := List.any_eq_true.mp h
  exact List.any_eq_true.mpr ⟨m, List.mem_append_left _ hm, hId⟩

end EntityTable

/-- What is freed is held no more. -/
theorem TimerSet.not_of_slot?_free {ts : TimerSet} {f : Option Timer → Bool} {i : Nat} {t : Timer}
    (h : (ts.free f).slot? i = some t) : f (some t) = false := by
  have hHeld := slot?_free h
  simp only [slot?, free, Array.getElem?_map] at h hHeld
  cases hSlot : ts.slots[i]? with
  | none => simp [hSlot] at h
  | some slot =>
      simp only [hSlot, Option.map_some, Option.join_some] at h hHeld
      subst hHeld
      split at h
      · cases h
      · rename_i hKept
        exact Bool.not_eq_true _ ▸ hKept

namespace Session

/-- The target of an event is live, and so is its sender, if it has one. -/
structure Harbors (s : Session) (e : QueuedEvent) : Prop where
  target : s.world.entities.contains e.target = true
  sender : ∀ id, e.sender = some id → s.world.entities.contains id = true

instance (s : Session) (e : QueuedEvent) : Decidable (s.Harbors e) :=
  decidable_of_iff (s.world.entities.contains e.target = true ∧
      e.sender.all s.world.entities.contains = true)
    ⟨fun h => ⟨h.1, fun id hId => by simpa [hId] using h.2⟩, fun h => ⟨h.target, by
      cases hSender : e.sender with
      | none => rfl
      | some id => exact h.sender id hSender⟩⟩

/-- No timer and no waiting event is left of an entity that is gone. -/
structure Owned (s : Session) : Prop where
  timers : ∀ i t, s.world.timers.slot? i = some t → s.world.entities.contains t.owner = true
  queue : ∀ i p, s.world.queue.slot? i = some p → s.Harbors p.event

variable {s t : Session}

theorem Harbors.mono {e : QueuedEvent} (h : s.Harbors e)
    (hLive : ∀ id, s.world.entities.contains id = true → t.world.entities.contains id = true) :
    t.Harbors e :=
  ⟨hLive _ h.target, fun id hId => hLive id (h.sender id hId)⟩

/-- Where no entity goes, timers and events may only go. -/
theorem Owned.thinned (hs : s.Owned)
    (hLive : ∀ id, s.world.entities.contains id = true → t.world.entities.contains id = true)
    (hTimers : ∀ i x, t.world.timers.slot? i = some x → s.world.timers.slot? i = some x)
    (hQueue : ∀ i p, t.world.queue.slot? i = some p → s.world.queue.slot? i = some p) : t.Owned :=
  ⟨fun i x hx => hLive _ (hs.timers i x (hTimers i x hx)),
    fun i p hp => (hs.queue i p (hQueue i p hp)).mono hLive⟩

theorem Owned.of_world (hs : s.Owned) (hEntities : t.world.entities = s.world.entities)
    (hTimers : t.world.timers = s.world.timers) (hQueue : t.world.queue = s.world.queue) : t.Owned :=
  hs.thinned (fun id h => by rw [hEntities]; exact h) (fun i x h => by rw [← hTimers]; exact h)
    fun i p h => by rw [← hQueue]; exact h

/-- Queuing an event whose target and sender are live. -/
theorem Owned.enqueue (hs : s.Owned) {e : QueuedEvent} (he : s.Harbors e) : (s.enqueue e).2.Owned := by
  have hLive : ∀ id, s.world.entities.contains id = true →
      (s.enqueue e).2.world.entities.contains id = true := by
    intro id h
    rw [enqueue_entities]
    exact h
  constructor
  · intro i t ht
    rw [enqueue_world] at ht
    exact hLive _ (hs.timers i t ht)
  · intro i p hp
    rw [enqueue_world] at hp
    obtain ⟨free, hSlots⟩ := s.world.queue.push_slots e
    rcases hSlots hp with hOld | ⟨_, rfl, _⟩
    · exact (hs.queue i p hOld).mono hLive
    · exact he.mono hLive

theorem Owned.deed (hs : s.Owned) {inv : Invocation} {f : Session → Session}
    (hLive : s.world.entities.contains inv.entity = true) (h : s.Deed inv f) : (f s).Owned := by
  cases h with
  | chance => exact hs.of_world rfl rfl rfl
  | give => exact hs.of_world rfl rfl rfl
  | globals => exact hs.of_world rfl rfl rfl
  | modify =>
      exact hs.thinned (fun id h => (EntityTable.contains_modify _ _ _ _).trans h) (fun _ _ h => h)
        fun _ _ h => h
  | free => exact hs.thinned (fun _ h => h) (fun _ _ h => TimerSet.slot?_free h) fun _ _ h => h
  | start hOwner =>
      constructor
      · intro i x hx
        rcases TimerSet.slot?_start hx with rfl | hOld
        · rw [hOwner]
          exact hLive
        · exact hs.timers i x hOld
      · exact fun i p hp => (hs.queue i p hp).mono fun _ h => h
  | enqueue hSender hTarget =>
      apply hs.enqueue
      constructor
      · exact hTarget
      · intro id hId
        cases hSender.symm.trans hId
        exact hLive

/-- An entity that goes takes its timers and its queued events along. -/
theorem Owned.destroy (hs : s.Owned) (id : EntityId) : (s.destroy id).2.Owned := by
  unfold Session.destroy
  cases hEntity : s.world.entities.get? id with
  | none => exact hs
  | some e =>
      have hStays {x : EntityId} (hOther : x ≠ id) (hx : s.world.entities.contains x = true) :
          (s.world.entities.remove id).contains x = true :=
        EntityTable.contains_remove_ne hOther hx
      constructor
      · intro i t ht
        have hOther := TimerSet.not_of_slot?_free (f := TimerSet.ownedBy id) ht
        have hOwner : t.owner ≠ id := by simpa [TimerSet.ownedBy] using hOther
        exact hStays hOwner (hs.timers i t (TimerSet.slot?_free ht))
      · intro i p hp
        have hOther := EventQueue.not_of_slot?_free (f := EventQueue.concerns id) hp
        have hOld := hs.queue i p ((EventQueue.free_thins _ _).slots hp)
        simp only [EventQueue.concerns, Option.any_some, Bool.or_eq_false_iff,
          decide_eq_false_iff_not] at hOther
        constructor
        · exact hStays hOther.1 hOld.target
        · intro x hx
          apply hStays _ (hOld.sender x hx)
          rintro rfl
          exact hOther.2 hx

theorem Owned.stir (hs : s.Owned) (h : Stir s t) : t.Owned := by
  cases h with
  | look hLook =>
      cases hLook with
      | write => exact hs.of_world rfl rfl rfl
      | ask => exact hs.of_world rfl rfl rfl
      | draw => exact hs.of_world rfl rfl rfl
  | deed hLive hDeed => exact hs.deed hLive hDeed
  | destroy id => exact hs.destroy id
  | depth => exact hs.of_world rfl rfl rfl

theorem Owned.moves {rules : Rules} {a b : Ledger} (ha : a.session.Owned)
    (h : rules.Moves Session.Harbors a b) : b.session.Owned := by
  have hRelease (s : Session) (i number : Nat) (hs : s.Owned) : (s.release i number).Owned :=
    hs.thinned (fun _ h => h) (fun _ _ h => h) fun _ _ h => (EventQueue.release_thins _ _ _).slots h
  cases h with
  | stir hStir => exact ha.stir hStir
  | enter => exact ha
  | leave => exact hRelease _ _ _ ha
  | drop => exact hRelease _ _ _ ha
  | queue hAdmits => exact ha.enqueue hAdmits
  | reset =>
      constructor
      · intro i t ht
        simp [Session.onWorld, World.reset, TimerSet.slot?, TimerSet.empty] at ht
      · intro i p hp
        cases EventQueue.not_of_slot?_free (f := fun _ => true) hp
  | spawn b =>
      rename_i s _
      have hWorld := s.spawn_world b
      apply ha.thinned
      · intro id h
        rw [hWorld]
        exact EntityTable.contains_spawn _ _ h
      · intro i x h
        rw [hWorld] at h
        exact h
      · intro i p h
        rw [hWorld] at h
        exact h
  | timer hSlot =>
      constructor
      · intro j x hx
        rcases TimerSet.slot?_setSlot hx with ⟨_, hNew⟩ | hOld
        · obtain ⟨t, ht, hOwner⟩ := hSlot x hNew
          rw [hOwner]
          exact ha.timers _ t ht
        · exact ha.timers j x hOld
      · exact fun i p hp => (ha.queue i p hp).mono fun _ h => h
  | plain hf =>
      rename_i s _ _
      apply ha.thinned
      · exact fun id h => ((hf s.world).live id).trans h
      · exact fun i x h => (congrArg (TimerSet.slot? · i) (hf s.world).timers).symm.trans h
      · exact fun i p h => (congrArg (EventQueue.slot? · i) (hf s.world).queue).symm.trans h

end Session

/-- Wherever requests lead, timers and events belong to live entities, as long as the game queues events
only between live entities. -/
theorem Rules.serve_owned {rules : Rules} (hRegistry : rules.registry.OfBuiltins) {s : Session}
    (hs : s.Owned) {fuel : Nat} {requests : List Request}
    (hAdmitted : rules.Admitted fuel Session.Harbors requests s) :
    ((rules.serve fuel requests).state s).Owned := by
  have hServed := serve_outcomes (rests_upheld hRegistry ⟨s, [], none⟩) hRegistry fuel
    ⟨rfl, [], .refl⟩ hAdmitted
  obtain ⟨last, hLast, hLeads⟩ := hServed.state fun _ _ h => h.2.comes
  rw [← hLast]
  clear hLast
  induction hLeads with
  | refl => exact hs
  | tail _ last ih => exact ih.moves last

namespace Engine

theorem perform_session {α : Type} (e : Engine) (act : Rules → Action α) :
    (e.perform act).2.session = (act e.rules).state e.session := by
  unfold perform Action.state
  cases act e.rules e.session <;> rfl

/-- Whatever is asked of a new engine, if only events between live entities are queued from outside,
then neither a timer nor a waiting event is left of an entity that is gone, also at a halt. And no
command is obeyed for such an entity: handlers that do anything else for it, in place of the commands,
make no difference to any dispatch. -/
theorem owned_throughout (config : Config) (loaded : Option Suppressions) (host : Host) (fuel : Nat)
    (requests : List Request)
    (hAdmitted : (start config loaded host).rules.Admitted fuel Session.Harbors requests
      (start config loaded host).session) :
    ((start config loaded host).perform fun rules => rules.serve fuel requests).2.session.Owned ∧
    ∀ h : Handlers, h.Faithful →
      (∀ fuel d, (start config loaded host).rules.deliverBy h fuel d =
        (start config loaded host).rules.deliver fuel d) ∧
      ∀ fuel script entity pos timer,
        (start config loaded host).rules.runLineBy h fuel script entity pos timer =
          (start config loaded host).rules.runLine fuel script entity pos timer := by
  have hRegistry : (start config loaded host).rules.registry.OfBuiltins := by
    dsimp only [start]
    exact Registry.builtins_ofBuiltins
  have hStart : (start config loaded host).session.Owned := by
    constructor
    · intro i t ht
      simp [start, World.ofConfig, TimerSet.slot?, TimerSet.empty] at ht
    · exact fun i p hp => absurd hp (EventQueue.slot?_ofCapacity _ _ _)
  constructor
  · rw [perform_session]
    exact Rules.serve_owned hRegistry hStart hAdmitted
  · intro h hFaithful
    exact ⟨Rules.deliverBy_eq hFaithful, Rules.runLineBy_eq hFaithful⟩

/-- Two entities that queue an event for each other; the first destroys itself when it gets its own. -/
def partingRequests : List Request :=
  [.spawn { className := "npc"
            script := some (.ofNormal "npc" "on hear \x7b\n destroy self\n\x7d\n") },
    .spawn { className := "npc" }, .queue ⟨some ⟨1⟩, ⟨0⟩, .parse "hear", .none⟩,
    .queue ⟨some ⟨0⟩, ⟨1⟩, .parse "hear", .none⟩, .drain 1]

set_option maxRecDepth 100000 in
/-- The drain delivers one event, and the other goes with the first entity. -/
theorem owned_throughout_parting :
    (start { queueCapacity := 2, seed := some 0 } none .silent).rules.Admitted 9 Session.Harbors
      partingRequests (start { queueCapacity := 2, seed := some 0 } none .silent).session ∧
    ∃ e : Engine, e = ((start { queueCapacity := 2, seed := some 0 } none .silent).perform
        fun rules => rules.serve 9 partingRequests).2 ∧
      e.session.Owned ∧ e.session.world.entities.ids = [⟨1⟩] ∧ e.session.world.queue.size = 0 := by
  have hAdmitted : (start { queueCapacity := 2, seed := some 0 } none .silent).rules.Admitted 9
      Session.Harbors partingRequests
      (start { queueCapacity := 2, seed := some 0 } none .silent).session := by decide +kernel
  have hEnd : (fun e : Engine => (e.session.world.entities.ids, e.session.world.queue.size))
      ((start { queueCapacity := 2, seed := some 0 } none .silent).perform
        fun rules => rules.serve 9 partingRequests).2 = ([⟨1⟩], 0) := by decide +kernel
  simp only [Prod.mk.injEq] at hEnd
  exact ⟨hAdmitted, _, rfl, (owned_throughout _ _ _ _ _ hAdmitted).1, hEnd.1, hEnd.2⟩

end Engine

end EntityScript
