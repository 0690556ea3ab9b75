import EntityScript.Session

/-! What a dispatch leaves of a session. Time stands still while it runs, no script comes up that no
entity had, and a timer keeps its slot unless it is stopped or started anew. -/
namespace EntityScript

namespace TimerSet

theorem slot?_free {s : TimerSet} {p : Option Timer → Bool} {i : Nat} {t : Timer}
    (h : (s.free p).slot? i = some t) : s.slot? i = some t := by
  simp only [slot?, free, Array.getElem?_map] at h ⊢
  cases hSlot : s.slots[i]? with
  | none => simp [hSlot] at h
  | some slot =>
      simp only [hSlot, Option.map_some, Option.join_some] at h ⊢
      split at h
      · cases h
      · exact h

theorem slot?_setSlot {s : TimerSet} {i j : Nat} {slot : Option Timer} {t : Timer}
    (h : (s.setSlot i slot).slot? j = some t) : (j = i ∧ slot = some t) ∨ s.slot? j = some t := by
  simp only [slot?, setSlot, Array.getElem?_setIfInBounds] at h ⊢
  split at h
  · split at h
    · exact .inl ⟨by omega, by simpa using h⟩
    · simp at h
  · exact .inr h

/-- Besides the slot that is set, every slot stays as it is. -/
theorem slot?_setSlot_ne {s : TimerSet} {i j : Nat} {slot : Option Timer} (h : i ≠ j) :
    (s.setSlot i slot).slot? j = s.slot? j := by
  simp [slot?, setSlot, h]

theorem slot?_put {s : TimerSet} {new t : Timer} {i : Nat} (h : (s.put new).slot? i = some t) :
    t = new ∨ s.slot? i = some t := by
  unfold put at h
  split at h
  · rcases slot?_setSlot h with ⟨_, hNew⟩ | hOld
    · exact .inl (Option.some.inj hNew).symm
    · exact .inr hOld
  · simp only [slot?, Array.getElem?_push] at h ⊢
    split at h
    · exact .inl (by simpa using h.symm)
    · exact .inr h

theorem slot?_start {s : TimerSet} {new t : Timer} {i : Nat} (h : (s.start new).slot? i = some t) :
    t = new ∨ s.slot? i = some t :=
  (slot?_put h).imp_right slot?_free

end TimerSet

namespace Session

/-- What may become of a session while a dispatch runs; `fresh` tells the timers that it starts. -/
structure Evolves (fresh : Timer → Prop) (s t : Session) : Prop where
  clock : t.world.clock = s.world.clock
  scripts : ∀ m ∈ t.world.entities.members, ∃ n ∈ s.world.entities.members,
    m.2.script = n.2.script ∧ m.2.overriding = n.2.overriding
  timers : ∀ i x, t.world.timers.slot? i = some x → s.world.timers.slot? i = some x ∨ fresh x

namespace Evolves

variable {fresh : Timer → Prop} {s t u : Session}

theorem refl (s : Session) : Evolves fresh s s := ⟨rfl, fun m hm => ⟨m, hm, rfl, rfl⟩, fun _ _ => .inl⟩

theorem trans (hst : Evolves fresh s t) (htu : Evolves fresh t u) : Evolves fresh s u := by
  refine ⟨htu.clock.trans hst.clock, fun m hm => ?_, fun i x hx => ?_⟩
  · obtain ⟨n, hn, hScript, hOverriding⟩ := htu.scripts m hm
    obtain ⟨k, hk, hScript', hOverriding'⟩ := hst.scripts n hn
    exact ⟨k, hk, hScript.trans hScript', hOverriding.trans hOverriding'⟩
  · rcases htu.timers i x hx with hOld | hFresh
    · exact hst.timers i x hOld
    · exact .inr hFresh

theorem mono {fresh' : Timer → Prop} (h : Evolves fresh s t) (hFresh : ∀ x, fresh x → fresh' x) :
    Evolves fresh' s t :=
  ⟨h.clock, h.scripts, fun i x hx => (h.timers i x hx).imp_right (hFresh x)⟩

/-- A change that leaves the clock, the entities and the timers alone. -/
theorem of_same (hClock : t.world.clock = s.world.clock)
    (hEntities : t.world.entities = s.world.entities)
    (hTimers : t.world.timers = s.world.timers) : Evolves fresh s t := by
  refine ⟨hClock, fun m hm => ⟨m, hEntities ▸ hm, rfl, rfl⟩, fun i x hx => .inl ?_⟩
  rwa [hTimers] at hx

theorem write (level : Level) (topic : Topic) (message : String) (s : Session) :
    Evolves fresh s (s.write level topic message) :=
  .of_same rfl rfl rfl

/-- Changing an entity, but not its scripts. -/
theorem modify (id : EntityId) {f : Entity → Entity}
    (hf : ∀ e, (f e).script = e.script ∧ (f e).overriding = e.overriding) (s : Session) :
    Evolves fresh s (s.onWorld fun w => { w with entities := w.entities.modify id f }) := by
  refine ⟨rfl, fun m hm => ?_, fun _ _ => .inl⟩
  simp only [onWorld, EntityTable.modify, List.mem_map] at hm
  obtain ⟨n, hn, rfl⟩ := hm
  refine ⟨n, hn, ?_⟩
  split
  · exact hf n.2
  · exact ⟨rfl, rfl⟩

theorem free (p : Option Timer → Bool) (s : Session) :
    Evolves fresh s (s.onWorld fun w => { w with timers := w.timers.free p }) :=
  ⟨rfl, fun m hm => ⟨m, hm, rfl, rfl⟩, fun _ _ h => .inl (TimerSet.slot?_free h)⟩

theorem startTimer {t : Timer} (ht : fresh t) (s : Session) :
    Evolves fresh s (s.startTimer t) := by
  refine ⟨rfl, fun m hm => ⟨m, hm, rfl, rfl⟩, fun i x hx => ?_⟩
  rcases TimerSet.slot?_start hx with rfl | hOld
  · exact .inr ht
  · exact .inl hOld

theorem enqueue (e : QueuedEvent) (s : Session) : Evolves fresh s (s.enqueue e).2 := by
  unfold Session.enqueue
  dsimp only
  split
  · exact .of_same rfl rfl rfl
  · exact .of_same rfl rfl rfl

theorem destroy (id : EntityId) (s : Session) : Evolves fresh s (s.destroy id).2 := by
  unfold Session.destroy
  split
  · exact .refl s
  · refine ⟨rfl, fun m hm => ⟨m, ?_, rfl, rfl⟩, fun _ _ h => .inl (TimerSet.slot?_free h)⟩
    exact (List.mem_filter.mp hm).1

end Evolves

end Session

end EntityScript
