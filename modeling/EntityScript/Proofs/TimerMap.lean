import EntityScript.Proofs.Sweep

/-! Timers as a map from owners and names. No two timers of a session have the same owner and name,
whatever is done to them, and looking one up by these gives what a map gives that was changed in the
same way. A timer that an operation is not about keeps its slot, and a new one takes the lowest slot
that is free. -/
namespace EntityScript

namespace Timer

/-- The key that the timers of a session are told apart by. -/
def HasKey (t : Timer) (owner : EntityId) (name : String) : Prop := t.owner = owner ∧ t.name = name

instance (t : Timer) (owner : EntityId) (name : String) : Decidable (t.HasKey owner name) :=
  inferInstanceAs (Decidable (_ ∧ _))

theorem advanced?_hasKey {t moved : Timer} {now : Duration} (h : t.advanced? now = some moved) :
    moved.HasKey t.owner t.name := by
  rw [advanced?_keeps h]
  exact ⟨rfl, rfl⟩

theorem caughtUp?_hasKey {t moved : Timer} {now : Duration} (h : t.caughtUp? now = some moved) :
    moved.HasKey t.owner t.name := by
  rw [caughtUp?_keeps h]
  exact ⟨rfl, rfl⟩

end Timer

/-- A map of timers by owner and name. -/
abbrev TimerMap := EntityId → String → Option Timer

namespace TimerMap

def empty : TimerMap := fun _ _ => none

/-- Puts a timer in, in place of one with its owner and name. -/
def insert (m : TimerMap) (t : Timer) : TimerMap :=
  fun owner name => if t.HasKey owner name then some t else m owner name

/-- Takes the timer of an owner and a name out. -/
def erase (m : TimerMap) (owner : EntityId) (name : String) : TimerMap :=
  fun owner' name' => if owner = owner' ∧ name = name' then none else m owner' name'

/-- Takes every timer of an owner out. -/
def eraseOwner (m : TimerMap) (owner : EntityId) : TimerMap :=
  fun owner' name => if owner = owner' then none else m owner' name

/-- What an operation does to the map: the keys that it is about are gone, but for that of a timer
which may be put in. -/
def Replaces (about : EntityId → String → Prop) (placed : Option Timer) (m m' : TimerMap) : Prop :=
  ∀ owner name t, m' owner name = some t ↔
    (placed = some t ∧ t.HasKey owner name) ∨ (m owner name = some t ∧ ¬ about owner name)

variable (m : TimerMap)

theorem refl_replaces : Replaces (fun _ _ => False) none m m := fun _ _ _ => by simp

theorem insert_replaces (t : Timer) : Replaces t.HasKey (some t) m (m.insert t) := by
  intro owner name u
  unfold insert
  split
  · rename_i hKey
    simp only [Option.some.injEq, hKey, not_true_eq_false, and_false, or_false]
    exact ⟨fun h => ⟨h, h ▸ hKey⟩, And.left⟩
  · rename_i hKey
    simp only [Option.some.injEq, hKey, not_false_eq_true, and_true]
    exact ⟨.inr, fun h => h.resolve_left fun ⟨hSame, hKey'⟩ => hKey (hSame ▸ hKey')⟩

theorem erase_replaces (owner : EntityId) (name : String) :
    Replaces (fun owner' name' => owner = owner' ∧ name = name') none m (m.erase owner name) := by
  intro owner' name' u
  unfold erase
  split <;> rename_i hKey <;> simp [hKey]

theorem eraseOwner_replaces (owner : EntityId) :
    Replaces (fun owner' _ => owner = owner') none m (m.eraseOwner owner) := by
  intro owner' name u
  unfold eraseOwner
  split <;> rename_i hOwner <;> simp [hOwner]

theorem empty_replaces : Replaces (fun _ _ => True) none m .empty := fun _ _ _ => by simp [empty]

end TimerMap

namespace TimerSet

variable {s : TimerSet} {t u : Timer} {i j : Nat} {owner : EntityId} {name : String}

/-- No two slots hold timers of the same owner and name. -/
structure Distinct (s : TimerSet) : Prop where
  apart : ∀ {i j t u}, s.slot? i = some t → s.slot? j = some u → u.HasKey t.owner t.name → i = j

/-! What each operation does to the slots. -/

theorem slot?_free_eq (s : TimerSet) (p : Option Timer → Bool) (i : Nat) :
    (s.free p).slot? i = (s.slot? i).filter fun t => !p (some t) := by
  simp only [slot?, free, Array.getElem?_map]
  cases s.slots[i]? with
  | none => rfl
  | some slot =>
      cases slot with
      | none => simp
      | some t => cases hFreed : p (some t) <;> simp [hFreed, Option.filter]

theorem slot?_stop_iff :
    (s.stop owner name).slot? i = some t ↔ s.slot? i = some t ∧ ¬ t.HasKey owner name := by
  rw [stop, slot?_free_eq, Option.filter_eq_some_iff]
  simp [holds, Timer.HasKey, ← Decidable.not_and_iff_not_or_not]

theorem slot?_clearFor_iff :
    (s.clearFor owner).slot? i = some t ↔ s.slot? i = some t ∧ t.owner ≠ owner := by
  rw [clearFor, slot?_free_eq, Option.filter_eq_some_iff]
  simp [ownedBy]

theorem slot?_setSlot_self (slot : Option Timer) (h : i < s.slots.size) :
    (s.setSlot i slot).slot? i = slot := by
  simp [slot?, setSlot, h]

theorem size_free (p : Option Timer → Bool) : (s.free p).slots.size = s.slots.size := by
  simp [free]

theorem slot?_eq_some_iff : s.slot? i = some t ↔ s.slots[i]? = some (some t) :=
  Option.join_eq_some_iff

/-- A timer is put into the lowest free slot; where none is free there is one slot more. -/
theorem put_slots (s : TimerSet) (t : Timer) : ∃ i, s.slot? i = none ∧
    (∀ j < i, (s.slot? j).isSome) ∧ (s.put t).slots.size = max s.slots.size (i + 1) ∧
    ∀ j, (s.put t).slot? j = if j = i then some t else s.slot? j := by
  unfold put
  cases hFree : s.slots.findIdx? Option.isNone with
  | some i =>
      obtain ⟨hIn, hNone, hBefore⟩ := Array.findIdx?_eq_some_iff_getElem.mp hFree
      refine ⟨i, ?_, fun j hj => ?_, ?_, fun j => ?_⟩
      · rw [slot?, Array.getElem?_eq_getElem hIn, Option.isNone_iff_eq_none.mp hNone]
        rfl
      · have hj' := Nat.lt_trans hj hIn
        rw [slot?, Array.getElem?_eq_getElem hj', Option.join_some]
        simpa [Option.isSome_iff_ne_none] using hBefore j hj
      · simp only [Array.size_setIfInBounds]
        omega
      · rcases Decidable.em (j = i) with rfl | hOther
        · rw [if_pos rfl]
          exact slot?_setSlot_self (some t) hIn
        · rw [if_neg hOther]
          exact slot?_setSlot_ne (Ne.symm hOther)
  | none =>
      have hFull := Array.findIdx?_eq_none_iff.mp hFree
      refine ⟨s.slots.size, ?_, fun j hj => ?_, ?_, fun j => ?_⟩
      · rw [slot?, Array.getElem?_eq_none (Nat.le_refl _)]
        rfl
      · rw [slot?, Array.getElem?_eq_getElem hj, Option.join_some]
        simpa [Option.isSome_iff_ne_none] using hFull _ (Array.getElem_mem hj)
      · simp only [Array.size_push]
        omega
      · simp only [slot?, Array.getElem?_push]
        rcases Decidable.em (j = s.slots.size) with rfl | hOther
        · simp
        · simp [hOther]

/-! Looking a timer up. -/

theorem holds_eq_true_iff {slot : Option Timer} :
    holds owner name slot = true ↔ ∃ t, slot = some t ∧ t.HasKey owner name := by
  simp [holds, Timer.HasKey, Option.any_eq_true]

theorem mem_slots_iff : some t ∈ s.slots ↔ ∃ i, s.slot? i = some t := by
  rw [Array.mem_iff_getElem?]
  exact exists_congr fun i => slot?_eq_some_iff.symm

theorem contains_iff :
    s.contains owner name = true ↔ ∃ i t, s.slot? i = some t ∧ t.HasKey owner name := by
  rw [contains, Array.any_eq_true']
  constructor
  · rintro ⟨slot, hSlot, hHolds⟩
    obtain ⟨t, rfl, hKey⟩ := holds_eq_true_iff.mp hHolds
    obtain ⟨i, hi⟩ := mem_slots_iff.mp hSlot
    exact ⟨i, t, hi, hKey⟩
  · rintro ⟨i, t, hSlot, hKey⟩
    exact ⟨some t, mem_slots_iff.mpr ⟨i, hSlot⟩, holds_eq_true_iff.mpr ⟨t, rfl, hKey⟩⟩

/-- The timer found for an owner and a name is one of these. -/
theorem exists_slot?_of_get? (h : s.get? owner name = some t) :
    ∃ i, s.slot? i = some t ∧ t.HasKey owner name := by
  have hFind := Option.join_eq_some_iff.mp h
  obtain ⟨u, hu, hKey⟩ := holds_eq_true_iff.mp (Array.find?_some hFind)
  cases hu
  obtain ⟨i, hi⟩ := mem_slots_iff.mp (Array.mem_of_find?_eq_some hFind)
  exact ⟨i, hi, hKey⟩

theorem isSome_get? : (s.get? owner name).isSome = s.contains owner name := by
  cases hFind : s.slots.find? (holds owner name) with
  | none =>
      have hNone : s.contains owner name = false :=
        Array.any_eq_false'.mpr (Array.find?_eq_none.mp hFind)
      rw [hNone, get?, hFind]
      rfl
  | some slot =>
      obtain ⟨t, rfl, hKey⟩ := holds_eq_true_iff.mp (Array.find?_some hFind)
      have hGet : s.get? owner name = some t := by
        rw [get?, hFind]
        rfl
      obtain ⟨i, hi, _⟩ := exists_slot?_of_get? hGet
      rw [hGet, contains_iff.mpr ⟨i, t, hi, hKey⟩]
      rfl

namespace Distinct

/-- The timers of an owner and a name are one timer, and it is the one that is found. -/
theorem get?_eq_some_iff (h : s.Distinct) :
    s.get? owner name = some t ↔ ∃ i, s.slot? i = some t ∧ t.HasKey owner name := by
  refine ⟨exists_slot?_of_get?, fun ⟨i, hi, hKey⟩ => ?_⟩
  have hFound := isSome_get?.trans (contains_iff.mpr ⟨i, t, hi, hKey⟩)
  obtain ⟨u, hu⟩ := Option.isSome_iff_exists.mp hFound
  obtain ⟨j, hj, hOwner, hName⟩ := exists_slot?_of_get? hu
  have hSame : i = j := h.apart hi hj ⟨hOwner.trans hKey.1.symm, hName.trans hKey.2.symm⟩
  subst hSame
  rw [hu, ← hi, hj]

theorem free (h : s.Distinct) (p : Option Timer → Bool) : (s.free p).Distinct :=
  ⟨fun ht hu hKey => h.apart (slot?_free ht) (slot?_free hu) hKey⟩

end Distinct

/-- What one operation does to the slots: the timers of the keys it is about are gone, but for one of
these that may be put into a slot, and every other timer stays in its own. -/
structure Replaces (about : EntityId → String → Prop) (placed : Option (Nat × Timer))
    (s s' : TimerSet) : Prop where
  key : ∀ i t, placed = some (i, t) → about t.owner t.name
  slots : ∀ i t, s'.slot? i = some t ↔
    placed = some (i, t) ∨ (s.slot? i = some t ∧ ¬ about t.owner t.name)

namespace Replaces

variable {s' : TimerSet} {about : EntityId → String → Prop} {placed : Option (Nat × Timer)}

theorem refl (s : TimerSet) : Replaces (fun _ _ => False) none s s :=
  ⟨nofun, fun _ _ => by simp⟩

theorem distinct (h : Replaces about placed s s') (hs : s.Distinct) : s'.Distinct := by
  constructor
  intro i j t u ht hu hKey
  rcases (h.slots i t).mp ht with hPut | ⟨hOld, hNot⟩ <;>
    rcases (h.slots j u).mp hu with hPut' | ⟨hOld', hNot'⟩
  · rw [hPut] at hPut'
    exact (Prod.mk.inj (Option.some.inj hPut')).1
  · rw [hKey.1, hKey.2] at hNot'
    exact absurd (h.key i t hPut) hNot'
  · have hAbout := h.key j u hPut'
    rw [hKey.1, hKey.2] at hAbout
    exact absurd hAbout hNot
  · exact hs.apart hOld hOld' hKey

theorem get?_eq_some_iff (h : Replaces about placed s s') (hs : s.Distinct) :
    s'.get? owner name = some t ↔ (∃ i, placed = some (i, t) ∧ t.HasKey owner name) ∨
      (s.get? owner name = some t ∧ ¬ about owner name) := by
  rw [(h.distinct hs).get?_eq_some_iff, hs.get?_eq_some_iff]
  constructor
  · rintro ⟨i, hi, hKey⟩
    rcases (h.slots i t).mp hi with hPut | ⟨hOld, hNot⟩
    · exact .inl ⟨i, hPut, hKey⟩
    · exact .inr ⟨⟨i, hOld, hKey⟩, by rwa [hKey.1, hKey.2] at hNot⟩
  · rintro (⟨i, hPut, hKey⟩ | ⟨⟨i, hOld, hKey⟩, hNot⟩)
    · exact ⟨i, (h.slots i t).mpr (.inl hPut), hKey⟩
    · exact ⟨i, (h.slots i t).mpr (.inr ⟨hOld, by rwa [hKey.1, hKey.2]⟩), hKey⟩

/-- A timer of another key is found as before. -/
theorem get?_eq (h : Replaces about placed s s') (hs : s.Distinct) (hOther : ¬ about owner name) :
    s'.get? owner name = s.get? owner name := by
  refine Option.ext fun t => ?_
  rw [h.get?_eq_some_iff hs]
  constructor
  · rintro (⟨i, hPlaced, hKey⟩ | ⟨hOld, _⟩)
    · have hAbout := h.key i t hPlaced
      rw [hKey.1, hKey.2] at hAbout
      exact absurd hAbout hOther
    · exact hOld
  · exact fun hOld => .inr ⟨hOld, hOther⟩

end Replaces

theorem stop_replaces (s : TimerSet) (owner : EntityId) (name : String) :
    Replaces (fun owner' name' => owner = owner' ∧ name = name') none s (s.stop owner name) :=
  ⟨nofun, fun i t => by simp [slot?_stop_iff, Timer.HasKey, @eq_comm _ owner, @eq_comm _ name]⟩

theorem clearFor_replaces (s : TimerSet) (owner : EntityId) :
    Replaces (fun owner' _ => owner = owner') none s (s.clearFor owner) :=
  ⟨nofun, fun i t => by simp [slot?_clearFor_iff, @eq_comm _ owner]⟩

theorem empty_replaces (s : TimerSet) : Replaces (fun _ _ => True) none s .empty :=
  ⟨nofun, fun i t => by simp [slot?, empty]⟩

/-- Starting a timer takes the lowest slot that is free once the timer in place of which it is started
is gone, and one slot more only where none is. -/
theorem start_replaces (s : TimerSet) (t : Timer) : ∃ i,
    Replaces t.HasKey (some (i, t)) s (s.start t) ∧
    (∀ j < i, ∃ u, s.slot? j = some u ∧ ¬ u.HasKey t.owner t.name) ∧
    (∀ u, s.slot? i = some u → u.HasKey t.owner t.name) ∧
    (s.start t).slots.size = max s.slots.size (i + 1) := by
  obtain ⟨i, hFree, hBefore, hSize, hSlots⟩ := put_slots (s.stop t.owner t.name) t
  refine ⟨i, ⟨?_, fun j u => ?_⟩, fun j hj => ?_, fun u hu => ?_, ?_⟩
  · rintro j u hPut
    cases hPut
    exact ⟨rfl, rfl⟩
  · rw [start, hSlots]
    rcases Decidable.em (j = i) with rfl | hOther
    · rw [if_pos rfl]
      have hGone : ¬ (s.slot? j = some u ∧ ¬ t.HasKey u.owner u.name) := fun ⟨hu, hKey⟩ => by
        have hStays := slot?_stop_iff.mpr ⟨hu, fun h => hKey ⟨h.1.symm, h.2.symm⟩⟩
        rw [hFree] at hStays
        cases hStays
      simp [hGone]
    · rw [if_neg hOther, slot?_stop_iff]
      simp [Ne.symm hOther, Timer.HasKey, eq_comm]
  · obtain ⟨u, hu⟩ := Option.isSome_iff_exists.mp (hBefore j hj)
    exact ⟨u, slot?_stop_iff.mp hu⟩
  · by_cases hKey : u.HasKey t.owner t.name
    · exact hKey
    · rw [slot?_stop_iff.mpr ⟨hu, hKey⟩] at hFree
      cases hFree
  · rw [start, hSize, stop, size_free]

/-- Changing what a slot holds into nothing or into a timer of the same key. -/
theorem setSlot_replaces (hs : s.Distinct) (hSlot : s.slot? i = some t) (slot : Option Timer)
    (hKey : ∀ u ∈ slot, u.HasKey t.owner t.name) :
    Replaces t.HasKey (slot.map fun u => (i, u)) s (s.setSlot i slot) := by
  have hIn := slot?_isSome_lt hSlot
  refine ⟨fun j u hPut => ?_, fun j u => ?_⟩
  · obtain ⟨v, hv, hPair⟩ := Option.map_eq_some_iff.mp hPut
    cases hPair
    exact ⟨(hKey u hv).1.symm, (hKey u hv).2.symm⟩
  · rcases Decidable.em (j = i) with rfl | hOther
    · rw [slot?_setSlot_self slot hIn]
      constructor
      · rintro rfl
        exact .inl rfl
      · rintro (hPut | ⟨hOld, hNot⟩)
        · obtain ⟨v, hv, hPair⟩ := Option.map_eq_some_iff.mp hPut
          cases hPair
          exact hv
        · rw [hSlot] at hOld
          cases hOld
          exact absurd ⟨rfl, rfl⟩ hNot
    · rw [slot?_setSlot_ne (Ne.symm hOther)]
      constructor
      · intro hOld
        exact .inr ⟨hOld, fun h => hOther (hs.apart hSlot hOld ⟨h.1.symm, h.2.symm⟩).symm⟩
      · rintro (hPut | ⟨hOld, _⟩)
        · obtain ⟨v, _, hPair⟩ := Option.map_eq_some_iff.mp hPut
          cases hPair
          exact absurd rfl hOther
        · exact hOld

/-- Emptying a slot that holds nothing. -/
theorem setSlot_none_replaces (h : s.slot? i = none) :
    Replaces (fun _ _ => False) none s (s.setSlot i none) := by
  refine ⟨nofun, fun j t => ?_⟩
  rcases Decidable.em (i = j) with rfl | hOther
  · have hSet : (s.setSlot i none).slot? i = none := by
      cases hSlot : (s.setSlot i none).slot? i with
      | none => rfl
      | some t =>
          rcases slot?_setSlot hSlot with ⟨_, hNone⟩ | hOld
          · cases hNone
          · rw [h] at hOld
            cases hOld
    simp [hSet, h]
  · rw [slot?_setSlot_ne hOther]
    simp

/-- Setting a slot to nothing or to a timer of the key that was there is about this key only. -/
theorem exists_setSlot_replaces (hs : s.Distinct) {slot : Option Timer}
    (hSlot : ∀ moved, slot = some moved → ∃ t, s.slot? i = some t ∧ moved.HasKey t.owner t.name) :
    ∃ (about : EntityId → String → Prop) (placed : Option (Nat × Timer)),
      (∀ owner name, about owner name → ∃ t, s.slot? i = some t ∧ t.HasKey owner name) ∧
      Replaces about placed s (s.setSlot i slot) := by
  cases hHeld : s.slot? i with
  | none =>
      have hNone : slot = none := Option.eq_none_iff_forall_ne_some.mpr fun moved hMoved => by
        obtain ⟨t, ht, _⟩ := hSlot moved hMoved
        cases hHeld.symm.trans ht
      subst hNone
      exact ⟨_, none, fun _ _ => False.elim, setSlot_none_replaces hHeld⟩
  | some t =>
      refine ⟨t.HasKey, _, fun owner name hKey => ⟨t, rfl, hKey⟩,
        setSlot_replaces hs hHeld slot fun moved hMoved => ?_⟩
      obtain ⟨u, hu, hKey⟩ := hSlot moved hMoved
      cases hHeld.symm.trans hu
      exact hKey

/-- The timer in a slot is moved on, unless it stops at that: then no slot changes. -/
def moveSlot (s : TimerSet) (i : Nat) (move : Timer → Option Timer) : TimerSet :=
  match (s.slot? i).bind move with
  | some moved => s.setSlot i (some moved)
  | none => s

/-- What is done to the timers of a session. -/
inductive Operation where
  | start (t : Timer)
  | stop (owner : EntityId) (name : String)
  | clearFor (owner : EntityId)
  | clear
  /-- The sweep takes a timer out of its slot, for its last run or as its owner is gone. -/
  | takeOut (i : Nat)
  /-- The sweep moves a timer on before its line runs. -/
  | advance (i : Nat) (now : Duration)
  /-- The sweep moves an idle timer on that does not run. -/
  | catchUp (i : Nat) (now : Duration)

namespace Operation

def apply (s : TimerSet) : Operation → TimerSet
  | .start t => s.start t
  | .stop owner name => s.stop owner name
  | .clearFor owner => s.clearFor owner
  | .clear => .empty
  | .takeOut i => s.setSlot i none
  | .advance i now => s.moveSlot i (·.advanced? now)
  | .catchUp i now => s.moveSlot i (·.caughtUp? now)

/-- The same change of a map; the sweep changes the timer that stands in the slot. -/
def onMap (s : TimerSet) (m : TimerMap) : Operation → TimerMap
  | .start t => m.insert t
  | .stop owner name => m.erase owner name
  | .clearFor owner => m.eraseOwner owner
  | .clear => .empty
  | .takeOut i => (s.slot? i).elim m fun t => m.erase t.owner t.name
  | .advance i now => ((s.slot? i).bind (·.advanced? now)).elim m m.insert
  | .catchUp i now => ((s.slot? i).bind (·.caughtUp? now)).elim m m.insert

/-- The keys that an operation is about. -/
def About (s : TimerSet) (owner : EntityId) (name : String) : Operation → Prop
  | .start t => t.HasKey owner name
  | .stop owner' name' => owner' = owner ∧ name' = name
  | .clearFor owner' => owner' = owner
  | .clear => True
  | .takeOut i | .advance i _ | .catchUp i _ => ∃ t, s.slot? i = some t ∧ t.HasKey owner name

/-- A move that leaves a timer its key puts the timer that it makes in place of the old one. -/
theorem moveSlot_replaces {s : TimerSet} (hs : s.Distinct) (m : TimerMap) (i : Nat)
    {move : Timer → Option Timer}
    (hMove : ∀ {t moved}, move t = some moved → moved.HasKey t.owner t.name) :
    ∃ (about : EntityId → String → Prop) (placed : Option (Nat × Timer)),
      (∀ owner name, about owner name → ∃ t, s.slot? i = some t ∧ t.HasKey owner name) ∧
      Replaces about placed s (s.moveSlot i move) ∧
      TimerMap.Replaces about (placed.map Prod.snd) m
        (((s.slot? i).bind move).elim m m.insert) := by
  unfold moveSlot
  cases hMoved : (s.slot? i).bind move with
  | none => exact ⟨_, none, fun _ _ => False.elim, .refl s, m.refl_replaces⟩
  | some moved =>
      obtain ⟨t, ht, hm⟩ := Option.bind_eq_some_iff.mp hMoved
      have hKey := hMove hm
      have hAbout : t.HasKey = moved.HasKey := by
        funext owner name
        simp only [Timer.HasKey, hKey.1, hKey.2]
      have hSet : Replaces t.HasKey (some (i, moved)) s (s.setSlot i (some moved)) :=
        setSlot_replaces hs ht (some moved) fun u hu => Option.mem_some.mp hu ▸ hKey
      refine ⟨t.HasKey, some (i, moved), fun owner name h => ⟨t, ht, h⟩, hSet, ?_⟩
      rw [hAbout]
      exact m.insert_replaces moved

/-- An operation does the same to the timers and to a map, and only to keys that it is about. -/
theorem replaces (op : Operation) {s : TimerSet} (hs : s.Distinct) (m : TimerMap) :
    ∃ (about : EntityId → String → Prop) (placed : Option (Nat × Timer)),
      (∀ owner name, about owner name → op.About s owner name) ∧
      Replaces about placed s (op.apply s) ∧
      TimerMap.Replaces about (placed.map Prod.snd) m (op.onMap s m) := by
  cases op with
  | start t =>
      obtain ⟨i, hStart, _⟩ := start_replaces s t
      exact ⟨_, _, fun _ _ => id, hStart, m.insert_replaces t⟩
  | stop owner name =>
      exact ⟨_, none, fun _ _ => id, stop_replaces s owner name, m.erase_replaces owner name⟩
  | clearFor owner =>
      exact ⟨_, none, fun _ _ => id, clearFor_replaces s owner, m.eraseOwner_replaces owner⟩
  | clear => exact ⟨_, none, fun _ _ => id, empty_replaces s, m.empty_replaces⟩
  | takeOut i =>
      simp only [onMap]
      cases hSlot : s.slot? i with
      | none => exact ⟨_, none, fun _ _ => False.elim, setSlot_none_replaces hSlot, m.refl_replaces⟩
      | some t =>
          exact ⟨t.HasKey, none, fun owner name h => ⟨t, hSlot, h⟩,
            setSlot_replaces hs hSlot none nofun, m.erase_replaces t.owner t.name⟩
  | advance i now => exact moveSlot_replaces hs m i Timer.advanced?_hasKey
  | catchUp i now => exact moveSlot_replaces hs m i Timer.caughtUp?_hasKey

end Operation

/-- An operation on timers and on a map. -/
def step (state : TimerSet × TimerMap) (op : Operation) : TimerSet × TimerMap :=
  (op.apply state.1, op.onMap state.1 state.2)

/-- The timers after a sequence of operations on none, and the map after the same. -/
def run (ops : List Operation) : TimerSet × TimerMap := ops.foldl step (.empty, .empty)

/-- The timers of a set stand for a map: there is at most one of an owner and a name, looking it up
gives what the map gives, and as many timers of an owner are counted as the map has names of it. -/
structure Represents (s : TimerSet) (m : TimerMap) : Prop where
  distinct : s.Distinct
  get? : ∀ owner name, s.get? owner name = m owner name
  contains : ∀ owner name, s.contains owner name = (m owner name).isSome
  countFor : ∀ owner, ∃ names : List String, names.Nodup ∧
    (∀ name, name ∈ names ↔ (m owner name).isSome) ∧ s.countFor owner = names.length

/-- The name of the timer in a slot, if the owner has it. -/
def nameOf? (owner : EntityId) (slot : Option Timer) : Option String :=
  (slot.filter (·.owner = owner)).map (·.name)

theorem nameOf?_eq_some_iff {slot : Option Timer} :
    nameOf? owner slot = some name ↔ ∃ t, slot = some t ∧ t.HasKey owner name := by
  simp [nameOf?, Option.filter_eq_some_iff, Timer.HasKey, and_assoc]

/-- The names of the timers of an owner, in the order of their slots. -/
def names (s : TimerSet) (owner : EntityId) : List String := s.slots.toList.filterMap (nameOf? owner)

theorem mem_names_iff : name ∈ s.names owner ↔ s.contains owner name = true := by
  rw [contains_iff, names, List.mem_filterMap]
  constructor
  · rintro ⟨slot, hSlot, hName⟩
    obtain ⟨t, rfl, hKey⟩ := nameOf?_eq_some_iff.mp hName
    obtain ⟨i, hi⟩ := mem_slots_iff.mp (Array.mem_toList_iff.mp hSlot)
    exact ⟨i, t, hi, hKey⟩
  · rintro ⟨i, t, hi, hKey⟩
    exact ⟨some t, Array.mem_toList_iff.mpr (mem_slots_iff.mpr ⟨i, hi⟩),
      nameOf?_eq_some_iff.mpr ⟨t, rfl, hKey⟩⟩

theorem length_names (s : TimerSet) (owner : EntityId) :
    (s.names owner).length = s.countFor owner := by
  rw [names, countFor, ← Array.countP_toList, List.length_filterMap_eq_countP]
  refine List.countP_congr fun slot _ => ?_
  cases slot with
  | none => simp [ownedBy, nameOf?]
  | some t => cases hOwned : decide (t.owner = owner) <;> simp_all [ownedBy, nameOf?, Option.filter]

theorem Distinct.nodup_names (hs : s.Distinct) (owner : EntityId) : (s.names owner).Nodup := by
  refine List.pairwise_filterMap.mpr (List.pairwise_iff_getElem.mpr ?_)
  intro i j hi hj hBefore name hFirst name' hSecond hSame
  subst hSame
  obtain ⟨t, ht, hKey⟩ := nameOf?_eq_some_iff.mp hFirst
  obtain ⟨u, hu, hKey'⟩ := nameOf?_eq_some_iff.mp hSecond
  have hSlot : ∀ {k : Nat} (hk : k < s.slots.toList.length) {v : Timer},
      s.slots.toList[k] = some v → s.slot? k = some v := by
    intro k hk v hv
    rw [slot?_eq_some_iff, ← Array.getElem?_toList, List.getElem?_eq_getElem hk, hv]
  have hOne := hs.apart (hSlot hi ht) (hSlot hj hu)
    ⟨hKey'.1.trans hKey.1.symm, hKey'.2.trans hKey.2.symm⟩
  exact Nat.ne_of_lt hBefore hOne

theorem Represents.of_get? {m : TimerMap} (hs : s.Distinct)
    (hGet : ∀ owner name, s.get? owner name = m owner name) : s.Represents m := by
  refine ⟨hs, hGet, fun owner name => ?_, fun owner => ?_⟩
  · rw [← isSome_get?, hGet]
  · refine ⟨s.names owner, hs.nodup_names owner, fun name => ?_, (length_names s owner).symm⟩
    rw [mem_names_iff, ← isSome_get?, hGet]

/-- An operation leaves timers that stand for the map after the same operation. -/
theorem Represents.apply {m : TimerMap} (h : s.Represents m) (op : Operation) :
    (op.apply s).Represents (op.onMap s m) := by
  obtain ⟨about, placed, _, hSlots, hMap⟩ := op.replaces h.distinct m
  refine .of_get? (hSlots.distinct h.distinct) fun owner name => Option.ext fun t => ?_
  have hPlaced : placed.map Prod.snd = some t ↔ ∃ i, placed = some (i, t) := by simp
  rw [hSlots.get?_eq_some_iff h.distinct, hMap, h.get?, hPlaced, exists_and_right]

theorem run_represents (ops : List Operation) : (run ops).1.Represents (run ops).2 := by
  have hFrom : ∀ (ops : List Operation) (state : TimerSet × TimerMap), state.1.Represents state.2 →
      (ops.foldl step state).1.Represents (ops.foldl step state).2 := by
    intro ops
    induction ops with
    | nil => exact fun _ h => h
    | cons op ops ih => exact fun state h => ih _ (h.apply op)
  exact hFrom ops _ (.of_get? ⟨nofun⟩ fun _ _ => rfl)

/-- Timers are a map: after every sequence of operations they stand for the map that was changed in
the same way. What is then done to them leaves every timer of another key as it is and in its slot,
and starting a timer takes the lowest slot that is free when the timer of its key is gone, and makes
the slots more only if none is. -/
theorem operations_refine_map (ops : List Operation) :
    (run ops).1.Represents (run ops).2 ∧
    (∀ (op : Operation) (i : Nat) (t : Timer), ¬ op.About (run ops).1 t.owner t.name →
      ((op.apply (run ops).1).slot? i = some t ↔ (run ops).1.slot? i = some t)) ∧
    ∀ t : Timer, ∃ i,
      ((run ops).1.start t).slot? i = some t ∧
      (∀ u, (run ops).1.slot? i = some u → u.HasKey t.owner t.name) ∧
      (∀ j < i, ∃ u, (run ops).1.slot? j = some u ∧ ¬ u.HasKey t.owner t.name) ∧
      ((run ops).1.start t).slots.size = max (run ops).1.slots.size (i + 1) := by
  have hRuns := run_represents ops
  refine ⟨hRuns, fun op i t hOther => ?_, fun t => ?_⟩
  · obtain ⟨about, placed, hAbout, hSlots, _⟩ := op.replaces hRuns.distinct (run ops).2
    have hKept : ¬ about t.owner t.name := fun h => hOther (hAbout _ _ h)
    rw [hSlots.slots]
    constructor
    · rintro (hPlaced | ⟨hOld, _⟩)
      · exact absurd (hSlots.key i t hPlaced) hKept
      · exact hOld
    · exact fun hOld => .inr ⟨hOld, hKept⟩
  · obtain ⟨i, hStart, hBefore, hOnly, hSize⟩ := start_replaces (run ops).1 t
    exact ⟨i, (hStart.slots i t).mpr (.inl rfl), hOnly, hBefore, hSize⟩

def bell : Timer := ⟨"bell", ⟨0⟩, .ofNormal "npc" "accept", 0, ⟨Duration.second⟩, 1, .zero, false⟩

def lamp : Timer := ⟨"lamp", ⟨1⟩, .ofNormal "npc" "accept", 0, ⟨Duration.second⟩, 0, .zero, true⟩

/-- The first of two slots is free again. -/
def freedSlot : List Operation := [.start bell, .start lamp, .stop bell.owner bell.name]

/-- The slot that is free again is taken, and the timer in the other slot stays there. -/
theorem operations_refine_map_freedSlot :
    (run freedSlot).1.Represents (run freedSlot).2 ∧
      ¬ (Operation.start bell).About (run freedSlot).1 lamp.owner lamp.name ∧
      ((run freedSlot).1.start bell).slot? 1 = some lamp ∧
      ∃ i, ((run freedSlot).1.start bell).slot? i = some bell ∧
        ∀ j < i, ((run freedSlot).1.slot? j).isSome := by
  obtain ⟨hRepresents, hStays, hStart⟩ := operations_refine_map freedSlot
  have hOther : ¬ (Operation.start bell).About (run freedSlot).1 lamp.owner lamp.name := by
    unfold Operation.About
    decide
  refine ⟨hRepresents, hOther, (hStays (.start bell) 1 lamp hOther).mpr (by decide +kernel), ?_⟩
  obtain ⟨i, hPut, _, hBefore, _⟩ := hStart bell
  refine ⟨i, hPut, fun j hj => ?_⟩
  obtain ⟨u, hu, _⟩ := hBefore j hj
  rw [hu]
  rfl

end TimerSet
end EntityScript
