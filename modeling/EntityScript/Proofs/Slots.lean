import EntityScript.Queue

/-! The slots of the event queue. A waiting event keeps its slot until that is freed, and its number
tells it apart from every event that was or will be taken in. -/
namespace EntityScript.EventQueue

variable {q q' r : EventQueue} {i j : Nat} {p : Pending}

/-- Every waiting event has a number of its own, below the next. -/
structure Sound (q : EventQueue) : Prop where
  below : ∀ {i p}, q.slot? i = some p → p.number < q.next
  apart : ∀ {i j p p'}, q.slot? i = some p → q.slot? j = some p' → p.number = p'.number → i = j

/-- What may become of a queue: events stay in their slots or are gone, and events that come in have
later numbers. -/
structure Follows (q q' : EventQueue) : Prop where
  next : q.next ≤ q'.next
  capacity : q'.capacity = q.capacity
  slots : ∀ {i p}, q'.slot? i = some p → q.slot? i = some p ∨ q.next ≤ p.number

/-- Nothing happens but that slots are freed. -/
structure Thins (q q' : EventQueue) : Prop where
  next : q'.next = q.next
  capacity : q'.capacity = q.capacity
  slots : ∀ {i p}, q'.slot? i = some p → q.slot? i = some p

/-- The event is in none of the slots. -/
def Lacks (q : EventQueue) (p : Pending) : Prop := ∀ i, q.slot? i ≠ some p

/-- In a new queue no slot is filled. -/
theorem slot?_ofCapacity (capacity i : Nat) (p : Pending) : (ofCapacity capacity).slot? i ≠ some p := by
  simp only [slot?, ofCapacity, Array.getElem?_replicate]
  split <;> exact nofun

theorem ofCapacity_sound (capacity : Nat) : (ofCapacity capacity).Sound :=
  ⟨fun h => absurd h (slot?_ofCapacity _ _ _), fun h => absurd h (slot?_ofCapacity _ _ _)⟩

theorem Follows.refl (q : EventQueue) : Follows q q := ⟨Nat.le_refl _, rfl, .inl⟩

theorem Follows.trans (h : Follows q q') (h' : Follows q' r) : Follows q r where
  next := Nat.le_trans h.next h'.next
  capacity := h'.capacity.trans h.capacity
  slots hSlot := by
    rcases h'.slots hSlot with hOld | hNew
    · exact h.slots hOld
    · exact .inr (Nat.le_trans h.next hNew)

theorem Thins.follows (h : Thins q q') : Follows q q' :=
  ⟨Nat.le_of_eq h.next.symm, h.capacity, fun hSlot => .inl (h.slots hSlot)⟩

theorem Thins.sound (h : Thins q q') (hq : q.Sound) : q'.Sound :=
  ⟨fun hSlot => h.next ▸ hq.below (h.slots hSlot),
    fun hSlot hSlot' hNumber => hq.apart (h.slots hSlot) (h.slots hSlot') hNumber⟩

/-- A waiting event stays in its slot, or it is gone from the queue. -/
theorem Follows.stays_or_gone (h : Follows q q') (hq : q.Sound) (hp : q.slot? i = some p) :
    q'.slot? i = some p ∨ q'.Lacks p := by
  by_cases hStays : q'.slot? i = some p
  · exact .inl hStays
  · right
    intro j hj
    rcases h.slots hj with hOld | hNew
    · rw [hq.apart hp hOld rfl] at hStays
      exact hStays hj
    · exact absurd (hq.below hp) (Nat.not_lt.mpr hNew)

/-- An event that is gone does not come back. -/
theorem Follows.lacks (h : Follows q q') (hp : p.number < q.next) (hGone : q.Lacks p) :
    q'.Lacks p := by
  intro j hj
  rcases h.slots hj with hOld | hNew
  · exact hGone j hOld
  · exact absurd hp (Nat.not_lt.mpr hNew)

theorem slot?_setIfInBounds (q : EventQueue) (i j : Nat) (slot : Option Pending) :
    ({ q with slots := q.slots.setIfInBounds i slot } : EventQueue).slot? j =
      if i = j ∧ i < q.capacity then slot else q.slot? j := by
  simp only [slot?, Array.getElem?_setIfInBounds, capacity]
  by_cases hEq : i = j
  · subst hEq
    by_cases hIn : i < q.slots.size
    · simp [hIn]
    · simp [hIn]
  · simp [hEq]

theorem slot?_free (q : EventQueue) (f : Option Pending → Bool) (i : Nat) :
    (q.free f).slot? i = (q.slot? i).filter fun p => !f (some p) := by
  simp only [slot?, free, Array.getElem?_map]
  cases q.slots[i]? with
  | none => rfl
  | some slot =>
      cases slot with
      | none => simp
      | some p => cases hFreed : f (some p) <;> simp [hFreed, Option.filter]

theorem free_thins (q : EventQueue) (f : Option Pending → Bool) : Thins q (q.free f) where
  next := rfl
  capacity := Array.size_map
  slots hSlot := by
    rw [slot?_free] at hSlot
    exact (Option.filter_eq_some_iff.mp hSlot).1

/-- What is freed is held no more. -/
theorem not_of_slot?_free {f : Option Pending → Bool} (h : (q.free f).slot? i = some p) :
    f (some p) = false := by
  rw [slot?_free] at h
  simpa using (Option.filter_eq_some_iff.mp h).2

/-- What is not freed stays. -/
theorem free_cases (f : Option Pending → Bool) (h : q.slot? i = some p) :
    (q.free f).slot? i = some p ∨ f (some p) = true := by
  rw [slot?_free, h]
  cases hFreed : f (some p) <;> simp [hFreed, Option.filter]

theorem lt_capacity (h : q.slot? i = some p) : i < q.capacity := by
  apply Nat.lt_of_not_le
  intro hBeyond
  rw [slot?, Array.getElem?_eq_none hBeyond] at h
  cases h

theorem slot?_release (q : EventQueue) (i number j : Nat) :
    (q.release i number).slot? j =
      (q.slot? j).filter fun p => !(decide (i = j) && decide (p.number = number)) := by
  unfold release
  by_cases hSame : i = j
  · subst hSame
    cases hSlot : q.slot? i with
    | none => simp [hSlot]
    | some held =>
        by_cases hNumber : held.number = number
        · simp [hNumber, slot?_setIfInBounds, lt_capacity hSlot, Option.filter]
        · simp [hNumber, hSlot, Option.filter]
  · have hKept : (q.slot? j).filter (fun p => !(decide (i = j) && decide (p.number = number))) =
        q.slot? j := by
      cases q.slot? j <;> simp [hSame, Option.filter]
    rw [hKept]
    cases q.slot? i with
    | none => rfl
    | some held =>
        dsimp only
        split
        · simp [slot?_setIfInBounds, hSame]
        · rfl

theorem release_thins (q : EventQueue) (i number : Nat) : Thins q (q.release i number) where
  next := by
    unfold release
    split
    · split <;> rfl
    · rfl
  capacity := by
    unfold release
    split
    · split
      · exact Array.size_setIfInBounds
      · rfl
    · rfl
  slots hSlot := by
    rw [slot?_release] at hSlot
    exact (Option.filter_eq_some_iff.mp hSlot).1

/-- A slot that is released holds the event of the number no more. -/
theorem ne_of_slot?_release {number : Nat} (h : (q.release i number).slot? i = some p) :
    p.number ≠ number := by
  rw [slot?_release] at h
  simpa using (Option.filter_eq_some_iff.mp h).2

/-- Every other event stays. -/
theorem release_cases (i number : Nat) (h : q.slot? j = some p) :
    (q.release i number).slot? j = some p ∨ (j = i ∧ p.number = number) := by
  rw [slot?_release, h]
  by_cases hReleased : i = j ∧ p.number = number
  · exact .inr ⟨hReleased.1.symm, hReleased.2⟩
  · left
    simpa [Option.filter] using hReleased

/-- An event that is taken in gets a free slot and the next number; an event without room changes
nothing in the slots. -/
theorem push_cases (q : EventQueue) (e : QueuedEvent) :
    (∃ i, i < q.capacity ∧ q.slot? i = none ∧ q.push e =
      (true, { q with slots := q.slots.setIfInBounds i (some ⟨q.next, e⟩), next := q.next + 1 })) ∨
    q.push e = (false, { q with dropped := q.dropped + 1 }) := by
  unfold push
  cases hFree : q.slots.findIdx? Option.isNone with
  | none => exact .inr rfl
  | some i =>
      obtain ⟨hIn, hNone, _⟩ := Array.findIdx?_eq_some_iff_getElem.mp hFree
      refine .inl ⟨i, hIn, ?_, rfl⟩
      rw [slot?, Array.getElem?_eq_getElem hIn, Option.isNone_iff_eq_none.mp hNone]
      rfl

/-- Besides the slot that a new event takes, the slots stay as they are. -/
theorem push_slots (q : EventQueue) (e : QueuedEvent) :
    ∃ free, ∀ {j p}, (q.push e).2.slot? j = some p → q.slot? j = some p ∨
      (j = free ∧ p = ⟨q.next, e⟩ ∧ (q.push e).2.next = q.next + 1) := by
  rcases q.push_cases e with ⟨i, _, _, hPush⟩ | hPush
  · refine ⟨i, fun {j p} hSlot => ?_⟩
    rw [hPush] at hSlot ⊢
    change ({ q with slots := q.slots.setIfInBounds i (some ⟨q.next, e⟩) } : EventQueue).slot? j = _
      at hSlot
    rw [slot?_setIfInBounds] at hSlot
    split at hSlot
    · rename_i hTaken
      exact .inr ⟨hTaken.1.symm, (Option.some.inj hSlot).symm, rfl⟩
    · exact .inl hSlot
  · refine ⟨0, fun {j p} hSlot => ?_⟩
    rw [hPush] at hSlot
    exact .inl hSlot

theorem push_next (q : EventQueue) (e : QueuedEvent) : q.next ≤ (q.push e).2.next := by
  rcases q.push_cases e with ⟨i, _, _, hPush⟩ | hPush
  · rw [hPush]
    exact Nat.le_succ _
  · exact Nat.le_of_eq (congrArg (fun pushed => pushed.2.next) hPush).symm

theorem push_follows (q : EventQueue) (e : QueuedEvent) : Follows q (q.push e).2 where
  next := q.push_next e
  capacity := by
    rcases q.push_cases e with ⟨i, _, _, hPush⟩ | hPush
    · rw [hPush]
      exact Array.size_setIfInBounds
    · rw [hPush]
      rfl
  slots hSlot := by
    obtain ⟨free, hSlots⟩ := q.push_slots e
    rcases hSlots hSlot with hOld | ⟨_, rfl, _⟩
    · exact .inl hOld
    · exact .inr (Nat.le_refl _)

theorem push_sound (hq : q.Sound) (e : QueuedEvent) : (q.push e).2.Sound := by
  obtain ⟨free, hSlots⟩ := q.push_slots e
  constructor
  · intro i p hSlot
    rcases hSlots hSlot with hOld | ⟨_, rfl, hNext⟩
    · exact Nat.lt_of_lt_of_le (hq.below hOld) (q.push_next e)
    · rw [hNext]
      exact Nat.lt_succ_self _
  · intro i j p p' hSlot hSlot' hNumber
    rcases hSlots hSlot with hOld | ⟨hFree, hNew, _⟩
    · rcases hSlots hSlot' with hOld' | ⟨_, hNew', _⟩
      · exact hq.apart hOld hOld' hNumber
      · rw [hNew'] at hNumber
        exact absurd (hq.below hOld) (by rw [hNumber]; exact Nat.lt_irrefl _)
    · rcases hSlots hSlot' with hOld' | ⟨hFree', _, _⟩
      · rw [hNew] at hNumber
        exact absurd (hq.below hOld') (by rw [← hNumber]; exact Nat.lt_irrefl _)
      · rw [hFree, hFree']

/-- An event that is taken in occupies one slot, which was free. -/
theorem push_occupies (hq : q.Sound) {e : QueuedEvent} (hTaken : (q.push e).1 = true) :
    ∃ i, q.slot? i = none ∧ (q.push e).2.slot? i = some ⟨q.next, e⟩ ∧
      ∀ j p, (q.push e).2.slot? j = some p → p.number = q.next → j = i := by
  rcases q.push_cases e with ⟨i, hIn, hFree, hPush⟩ | hPush
  · have hNew : (q.push e).2.slot? i = some ⟨q.next, e⟩ := by
      rw [hPush]
      change ({ q with slots := q.slots.setIfInBounds i (some ⟨q.next, e⟩) } : EventQueue).slot? i = _
      rw [slot?_setIfInBounds, if_pos ⟨rfl, hIn⟩]
    exact ⟨i, hFree, hNew, fun j p hSlot hNumber => (push_sound hq e).apart hSlot hNew hNumber⟩
  · rw [hPush] at hTaken
    cases hTaken

/-! Which slots events take that come one after another. -/

/-- The free slots in order. -/
def freeSlots (q : EventQueue) : List Nat := (List.range q.capacity).filter fun i => (q.slot? i).isNone

theorem mem_freeSlots : i ∈ q.freeSlots ↔ i < q.capacity ∧ q.slot? i = none := by
  simp [freeSlots]

theorem nodup_freeSlots (q : EventQueue) : q.freeSlots.Nodup := List.nodup_range.filter _

theorem slot?_of_lt (h : i < q.slots.size) : q.slot? i = q.slots[i] := by
  rw [slot?, Array.getElem?_eq_getElem h, Option.join_some]

/-- The first slot that is found free is the first free slot. -/
theorem findIdx?_eq_head? (q : EventQueue) : q.slots.findIdx? Option.isNone = q.freeSlots.head? := by
  refine Option.ext fun i => ?_
  rw [freeSlots, List.head?_filter, List.find?_range_eq_some, Array.findIdx?_eq_some_iff_getElem,
    List.mem_range]
  constructor
  · rintro ⟨hIn, hFree, hBefore⟩
    refine ⟨by rwa [slot?_of_lt hIn], hIn, fun j hj => ?_⟩
    rw [slot?_of_lt (Nat.lt_trans hj hIn)]
    simpa [Option.isSome_iff_ne_none] using hBefore j hj
  · rintro ⟨hFree, hIn, hBefore⟩
    refine ⟨hIn, by rwa [← slot?_of_lt hIn], fun j hj => ?_⟩
    have hTaken := hBefore j hj
    rw [slot?_of_lt (Nat.lt_trans hj hIn)] at hTaken
    simpa [Option.isSome_iff_ne_none] using hTaken

/-- What becomes of a queue to which events come one after another. Each takes the next free slot as long as
there is one, and the others are dropped; nothing else changes. -/
structure Takes (q : EventQueue) (events : List QueuedEvent) (q' : EventQueue) : Prop where
  capacity : q'.capacity = q.capacity
  placed : ∀ {j i e}, q.freeSlots[j]? = some i → events[j]? = some e → q'.slot? i = some ⟨q.next + j, e⟩
  kept : ∀ {i}, i ∉ q.freeSlots.take events.length → q'.slot? i = q.slot? i
  next : q'.next = q.next + min events.length q.freeSlots.length
  dropped : q'.dropped = q.dropped + (events.length - min events.length q.freeSlots.length)

/-- An event that waits already keeps its slot. -/
theorem Takes.stays {events : List QueuedEvent} (h : q.Takes events q') (hSlot : q.slot? i = some p) :
    q'.slot? i = some p := by
  rw [h.kept, hSlot]
  intro hFree
  have hNone := (mem_freeSlots.mp (List.mem_of_mem_take hFree)).2
  rw [hNone] at hSlot
  cases hSlot

theorem Takes.nil (q : EventQueue) : q.Takes [] q where
  capacity := rfl
  placed _ hEvent := by cases hEvent
  kept _ := rfl
  next := by simp
  dropped := by simp

/-- An event that finds no free slot. -/
theorem push_full (h : q.freeSlots = []) (e : QueuedEvent) :
    (q.push e).2 = { q with dropped := q.dropped + 1 } := by
  rw [push, findIdx?_eq_head?, h]
  rfl

theorem push_free {rest : List Nat} (h : q.freeSlots = i :: rest) (e : QueuedEvent) :
    (q.push e).2 = { q with slots := q.slots.setIfInBounds i (some ⟨q.next, e⟩), next := q.next + 1 } := by
  rw [push, findIdx?_eq_head?, h]
  rfl

theorem slot?_push_free {rest : List Nat} (h : q.freeSlots = i :: rest) (e : QueuedEvent) (j : Nat) :
    (q.push e).2.slot? j = if j = i then some ⟨q.next, e⟩ else q.slot? j := by
  have hIn := (mem_freeSlots.mp (h ▸ List.mem_cons_self)).1
  rw [push_free h]
  change ({ q with slots := q.slots.setIfInBounds i (some ⟨q.next, e⟩) } : EventQueue).slot? j = _
  rw [slot?_setIfInBounds]
  simp [hIn, eq_comm]

/-- The other free slots stay free. -/
theorem freeSlots_push_free {rest : List Nat} (h : q.freeSlots = i :: rest) (e : QueuedEvent) :
    (q.push e).2.freeSlots = rest := by
  have hOthers : (q.push e).2.freeSlots = q.freeSlots.filter (· ≠ i) := by
    rw [freeSlots, freeSlots, List.filter_filter, (q.push_follows e).capacity]
    refine List.filter_congr fun j _ => ?_
    rw [slot?_push_free h]
    by_cases hSame : j = i <;> simp [hSame]
  obtain ⟨hApart, -⟩ := List.nodup_cons.mp (h ▸ q.nodup_freeSlots)
  rw [hOthers, h, List.filter_cons_of_neg (by simp), List.filter_eq_self]
  intro j hj
  exact decide_eq_true fun hSame => hApart (hSame ▸ hj)

/-- If one event is pushed and the others come behind it, all come one after another. -/
theorem Takes.cons {e : QueuedEvent} {events : List QueuedEvent} (h : (q.push e).2.Takes events q') :
    q.Takes (e :: events) q' := by
  have hCapacity := h.capacity.trans (q.push_follows e).capacity
  have hNext := h.next
  have hDropped := h.dropped
  cases hFree : q.freeSlots with
  | nil =>
      have hPush := push_full hFree e
      have hStill : (q.push e).2.freeSlots = [] := by
        rw [hPush]
        exact hFree
      rw [hStill, hPush, List.length_nil, Nat.min_zero] at hNext hDropped
      dsimp only at hNext hDropped
      refine ⟨hCapacity, fun hSlot _ => ?_, fun _ => ?_, ?_, ?_⟩
      · rw [hFree] at hSlot
        cases hSlot
      · rw [h.kept (by simp [hStill]), hPush]
        rfl
      · rw [hNext, hFree, List.length_nil, Nat.min_zero]
      · rw [hDropped, hFree, List.length_nil, Nat.min_zero, List.length_cons]
        omega
  | cons first rest =>
      have hPush := push_free hFree e
      have hRest := freeSlots_push_free hFree e
      obtain ⟨hApart, -⟩ := List.nodup_cons.mp (hFree ▸ q.nodup_freeSlots)
      rw [hRest, hPush] at hNext hDropped
      dsimp only at hNext hDropped
      refine ⟨hCapacity, fun {j i d} hSlot hEvent => ?_, fun {i} hOther => ?_, ?_, ?_⟩
      · rw [hFree] at hSlot
        cases j with
        | zero =>
            obtain rfl := Option.some.inj hSlot
            obtain rfl := Option.some.inj hEvent
            rw [h.kept fun hLater => hApart (List.mem_of_mem_take (hRest ▸ hLater)), slot?_push_free hFree,
              if_pos rfl, Nat.add_zero]
        | succ j =>
            have hPlaced := h.placed (hRest.symm ▸ hSlot) hEvent
            rw [hPlaced, hPush, Nat.add_assoc, Nat.add_comm 1 j]
      · rw [hFree, List.length_cons, List.take_succ_cons, List.mem_cons, not_or] at hOther
        rw [h.kept (by rw [hRest]; exact hOther.2), slot?_push_free hFree, if_neg hOther.1]
      · rw [hNext, hFree, List.length_cons, List.length_cons]
        omega
      · rw [hDropped, hFree, List.length_cons, List.length_cons]
        omega

end EntityScript.EventQueue
