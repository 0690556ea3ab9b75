import EntityScript.Proofs.DryRun
import EntityScript.Proofs.Roster

/-! Broadcasts. An event that is sent to a group, or to all within a radius, goes to its audience in the order
of the handles. Each receiver gets it in the next free slot of the queue until there is none left, and nothing
is dispatched. -/
namespace EntityScript

/-- The letter by which flags name a kind of entity. -/
def Capability.letter : Capability → Char
  | .npc => 'n'
  | .item => 'i'
  | .fix => 'f'
  | .camera => 'c'
  | .marker => 'm'

namespace Audience

variable {sender : Option Entity} {e : Entity}

/-- The entity belongs to the group, or it is within the radius around the sender, which is live. -/
def Covers (sender : Option Entity) (e : Entity) : Audience → Prop
  | .group name => e.groups.contains name = true
  | .radius r => ∃ s, sender = some s ∧ s.position.distance e.position ≤ r

theorem includes_iff (a : Audience) : a.includes sender e = true ↔ a.Covers sender e := by
  cases a with
  | group name => exact Iff.rfl
  | radius r => simp [includes, Covers, Option.any_eq_true]

end Audience

namespace Command

open Act

variable {S : Session → Session → Prop} {inv inv' : Invocation} {p q : Progress} {options : String}

/-- The flags name no kind of entity, or one of the kinds that the entity is of. -/
def OfKinds (options : String) (e : Entity) : Prop :=
  (∀ kind : Capability, kind.letter ∉ options.toList) ∨
    ∃ kind ∈ e.capabilities, kind.letter ∈ options.toList

theorem mem_kindsOf {kind : Capability} : kind ∈ kindsOf options ↔ kind.letter ∈ options.toList := by
  rw [kindsOf, List.mem_filterMap]
  constructor
  · rintro ⟨c, hc, hKind⟩
    split at hKind <;> cases hKind <;> exact hc
  · intro hLetter
    exact ⟨_, hLetter, by cases kind <;> rfl⟩

theorem ofKinds_iff {e : Entity} :
    ((kindsOf options).isEmpty || Capability.meet e.capabilities (kindsOf options)) = true ↔
      OfKinds options e := by
  simp only [Bool.or_eq_true, List.isEmpty_iff, List.eq_nil_iff_forall_not_mem, Capability.meet,
    List.any_eq_true, List.contains_iff_mem, mem_kindsOf, OfKinds]

variable {entities : EntityTable}

/-- The targets are the other live entities of the kinds that the flags name and that the audience covers,
in the order of their handles. -/
structure Reached (entities : EntityTable) (this : EntityId) (options : String) (audience : Audience)
    (targets : List EntityId) : Prop where
  sorted : targets.Pairwise fun a b => a.index < b.index
  mem : ∀ id, id ∈ targets ↔ id ≠ this ∧ ∃ e,
    entities.get? id = some e ∧ OfKinds options e ∧ audience.Covers (entities.get? this) e

theorem receivers_reached (hOrdered : entities.Ordered) (this : EntityId) (options : String)
    (audience : Audience) :
    Reached entities this options audience (receivers entities this (kindsOf options) audience) where
  sorted := hOrdered.sorted.sublist (List.filter_sublist.map _)
  mem id := by
    simp only [receivers, List.mem_map, List.mem_filter, Bool.and_eq_true, decide_eq_true_eq, ofKinds_iff,
      Audience.includes_iff, hOrdered.get?_eq_some_iff]
    constructor
    · rintro ⟨⟨id, e⟩, ⟨hMember, ⟨hOther, hKinds⟩, hCovers⟩, rfl⟩
      exact ⟨hOther, e, hMember, hKinds, hCovers⟩
    · rintro ⟨hOther, e, hMember, hKinds, hCovers⟩
      exact ⟨(id, e), ⟨hMember, ⟨hOther, hKinds⟩, hCovers⟩, rfl⟩

/-- The events of a broadcast come to the queue one after another, and nothing else in the world changes. -/
theorem enqueueAll_takes (this : EntityId) (event : EventName) (parameters : Parameters)
    (targets : List EntityId) (s : Session) :
    ∃ queue, (enqueueAll this event parameters targets s).2.world = { s.world with queue } ∧
      s.world.queue.Takes (targets.map fun target => ⟨some this, target, event, parameters⟩) queue := by
  induction targets generalizing s with
  | nil => exact ⟨_, rfl, .nil _⟩
  | cons target rest ih =>
      obtain ⟨queue, hWorld, hTakes⟩ := ih (s.enqueue ⟨some this, target, event, parameters⟩).2
      rw [Session.enqueue_world] at hWorld hTakes
      exact ⟨queue, hWorld, hTakes.cons⟩

/-- Reads what a broadcast is about, behind its flags: its audience, the event and its parameters. -/
def broadcast? (options : String) : Act (Option (Audience × EventName × Parameters)) := do
  match ← audience? options with
  | none => return none
  | some audience =>
    let event := EventName.parse (← word)
    let parameters ← parameters
    return some (audience, event, parameters)

theorem broadcast?_twin (hS : Watches S inv inv') (options : String) :
    Twin S inv inv' (fun _ => True) (broadcast? options) := by
  apply (audience?_twin hS options).andThen
  intro audience
  split
  · exact .pure True.intro
  · exact hS.word.bind fun _ _ => (parameters_twin hS).andThen fun _ => .pure True.intro

/-- The flags of a broadcast announce an audience. -/
theorem audience?_some (hFlags : 'g' ∈ options.toList ∨ 'r' ∈ options.toList) {found : Option Audience}
    (h : audience? options inv p = .ok found q) : ∃ audience, found = some audience := by
  unfold audience? at h
  split at h
  · obtain ⟨name, _, -, h⟩ := ok_of_bind h
    cases h
    exact ⟨_, rfl⟩
  rename_i hNoGroup
  rw [if_pos (by simpa using hFlags.resolve_left (by simpa using hNoGroup))] at h
  obtain ⟨w, _, -, h⟩ := ok_of_bind h
  split at h
  · obtain ⟨r, _, -, h⟩ := ok_of_bind h
    cases h
    exact ⟨_, rfl⟩
  · obtain ⟨_, _, -, h⟩ := ok_of_bind h
    cases h
    exact ⟨_, rfl⟩

/-- Sending an event with the flags of a broadcast halts where reading what it is about does. Otherwise the
events for its receivers come to the queue. -/
theorem runSend_broadcast {p₁ : Progress} (hFlags : flags inv p = .ok options p₁)
    (hAnnounced : 'g' ∈ options.toList ∨ 'r' ∈ options.toList) :
    (∃ halt q, broadcast? options inv p₁ = .error halt q ∧ runSend inv p = .error halt q) ∨
    ∃ audience event parameters q q',
      broadcast? options inv p₁ = .ok (some (audience, event, parameters)) q ∧
      runSend inv p = .ok .success q' ∧
      q'.session.world = (enqueueAll inv.entity event parameters
        (receivers q.session.world.entities inv.entity (kindsOf options) audience) q.session).2.world := by
  rw [runSend, bind_of_ok hFlags, broadcast?]
  cases hAudience : audience? options inv p₁ with
  | error halt q => exact .inl ⟨halt, q, bind_of_error hAudience, bind_of_error hAudience⟩
  | ok found p₂ =>
  obtain ⟨audience, rfl⟩ := audience?_some hAnnounced hAudience
  rw [bind_of_ok hAudience, bind_of_ok hAudience]
  dsimp only
  cases hEvent : word inv p₂ with
  | error halt q => exact .inl ⟨halt, q, bind_of_error hEvent, bind_of_error hEvent⟩
  | ok name p₃ =>
  rw [bind_of_ok hEvent, bind_of_ok hEvent]
  cases hParameters : parameters inv p₃ with
  | error halt q => exact .inl ⟨halt, q, bind_of_error hParameters, bind_of_error hParameters⟩
  | ok values q =>
  rw [bind_of_ok hParameters, bind_of_ok hParameters]
  exact .inr ⟨audience, .parse name, values, q, _, rfl, rfl, rfl⟩

/-- A broadcast reaches exactly its audience. What the flags of a group or a radius announce is read from the
line; where that does not halt, the event goes to the live entities other than the sender that are of the kinds
named and that the audience covers, in the order of their handles. As many as there are free slots for get it,
each in the next free slot, and the others are counted as dropped. Events that wait stay where they are, and
nothing is dispatched: the script goes on, in a world that is the same but for the queue and for random
numbers that the words on the line ask for. Handles are in order in every session (`Rules.Attains.ordered`). -/
theorem broadcast_reaches_audience {p₁ : Progress} (hFlags : flags inv p = .ok options p₁)
    (hAnnounced : 'g' ∈ options.toList ∨ 'r' ∈ options.toList)
    (hOrdered : p.session.world.entities.Ordered) :
    (∃ halt q, broadcast? options inv p₁ = .error halt q ∧ runSend inv p = .error halt q) ∨
    ∃ audience event parameters q q' targets,
      broadcast? options inv p₁ = .ok (some (audience, event, parameters)) q ∧
      runSend inv p = .ok .success q' ∧
      Reached p.session.world.entities inv.entity options audience targets ∧
      p.session.world.queue.Takes
        (targets.map fun target => ⟨some inv.entity, target, event, parameters⟩) q'.session.world.queue ∧
      (∀ i pending, p.session.world.queue.slot? i = some pending →
        q'.session.world.queue.slot? i = some pending) ∧
      q'.session.world = { p.session.world with
        random := q'.session.world.random, queue := q'.session.world.queue } := by
  rcases runSend_broadcast hFlags hAnnounced with
    hHalt | ⟨audience, event, parameters, q, q', hRead, hRun, hWorld⟩
  · exact .inl hHalt
  have hGlanced : Session.Glanced inv.script.AsksFor p.session q.session :=
    (glances (fun hS => hS.flags) hFlags).trans (glances (fun hS => broadcast?_twin hS options) hRead)
  obtain ⟨queue, hQueued, hTakes⟩ := enqueueAll_takes inv.entity event parameters
    (receivers q.session.world.entities inv.entity (kindsOf options) audience) q.session
  rw [hQueued, hGlanced.world] at hWorld
  rw [hGlanced.world] at hTakes
  have hQueue : q'.session.world.queue = queue := congrArg World.queue hWorld
  rw [← hQueue] at hTakes
  refine .inr ⟨audience, event, parameters, q, q', _, hRead, hRun,
    receivers_reached hOrdered inv.entity options audience, hTakes, fun _ _ => hTakes.stays, ?_⟩
  rw [hWorld]

/-- A line that sends an event to the guards that are npcs. -/
def alarmInvocation : Invocation :=
  { script := .ofNormal "npc" " -gn guards hit", entity := ⟨0⟩, event := .fixed .init }

def alarmWaiting : Pending := ⟨0, ⟨none, ⟨1⟩, .fixed .hit, .none⟩⟩

/-- The start of the line, where the guards are three npcs and an item, and the queue has one free slot. -/
def alarmStart : Progress :=
  let guard (kind : Capability) : Entity :=
    ({ Entity.ofClass "npc" with capabilities := [kind] } : Entity).withGroup "guards"
  let entities := [Capability.npc, .item, .npc, .npc].foldl (fun t kind => (t.spawn (guard kind)).2) .empty
  let queue := ⟨#[some alarmWaiting, none], 1, 0⟩
  ⟨⟨{ World.ofConfig {} with entities, queue }, .silent, #[]⟩, 0, []⟩

/-- The item does not get the event, and the one that waits stays where it is. -/
theorem broadcast_reaches_audience_alarm :
    ∃ (q' : Progress) (targets : List EntityId), runSend alarmInvocation alarmStart = .ok .success q' ∧
      ⟨2⟩ ∈ targets ∧ (⟨1⟩ : EntityId) ∉ targets ∧
      alarmStart.session.world.queue.Takes
        (targets.map fun target => ⟨some ⟨0⟩, target, .fixed .hit, .none⟩) q'.session.world.queue ∧
      q'.session.world.queue.slot? 0 = some alarmWaiting := by
  have hFlags : flags alarmInvocation alarmStart = .ok "gn" { alarmStart with pos := 4 } := rfl
  have hAlarm : broadcast? "gn" alarmInvocation { alarmStart with pos := 4 } =
      .ok (some (.group "guards", .fixed .hit, .none)) { alarmStart with pos := 15 } := rfl
  have hOrdered : alarmStart.session.world.entities.Ordered := ⟨by decide +kernel, by decide +kernel⟩
  rcases broadcast_reaches_audience hFlags (.inl (by decide)) hOrdered with
    ⟨halt, q, hRead, -⟩ |
      ⟨audience, event, parameters, q, q', targets, hRead, hRun, hReached, hTakes, hStays, -⟩
  · cases hAlarm.symm.trans hRead
  cases hAlarm.symm.trans hRead
  refine ⟨q', targets, hRun, (hReached.mem ⟨2⟩).mpr ?_, fun hItem => ?_, hTakes,
    hStays 0 alarmWaiting rfl⟩
  · exact ⟨by decide, _, rfl, .inr ⟨.npc, by decide, by decide⟩, rfl⟩
  · obtain ⟨-, e, hGet, hKinds, -⟩ := (hReached.mem ⟨1⟩).mp hItem
    obtain rfl := Option.some.inj hGet
    rcases hKinds with hNone | ⟨kind, hKind, hLetter⟩
    · exact hNone .npc (by decide)
    · obtain rfl := List.mem_singleton.mp hKind
      exact absurd hLetter (by decide)

end Command

end EntityScript
