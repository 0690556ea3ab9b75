import EntityScript.Proofs.Changes

/-! The schedule of a timer. As long as fired lines leave it alone, a timer runs once in each sweep that
finds its next run due, until its runs are used up; each interval begins where the last one ended, so
the schedule does not drift. -/
namespace EntityScript

namespace Session

variable {s t : Session}

theorem Stir.distinct (h : Stir s t) (hs : s.world.timers.Distinct) : t.world.timers.Distinct := by
  cases h with
  | look hLook => cases hLook <;> exact hs
  | deed _ hDeed =>
      cases hDeed with
      | free => exact hs.free _
      | start =>
          obtain ⟨_, hStart, _⟩ := TimerSet.start_replaces s.world.timers _
          exact hStart.distinct hs
      | enqueue =>
          rw [enqueue_world]
          exact hs
      | _ => exact hs
  | destroy id =>
      unfold Session.destroy
      split
      · exact hs
      · exact hs.free _
  | depth => exact hs

theorem Change.distinct (h : Change s t) (hs : s.world.timers.Distinct) :
    t.world.timers.Distinct := by
  cases h with
  | stir hStir => exact hStir.distinct hs
  | release => exact hs
  | queue =>
      rw [enqueue_world]
      exact hs
  | spawn b =>
      rw [spawn_world]
      exact hs
  | reset => exact (TimerSet.empty_replaces s.world.timers).distinct hs
  | timer hSlot =>
      obtain ⟨_, _, _, hSet⟩ := TimerSet.exists_setSlot_replaces hs hSlot
      exact hSet.distinct hs
  | plain hf =>
      rw [onWorld, (hf s.world).timers]
      exact hs

theorem distinct_of_leads (h : Leads Change s t) (hs : s.world.timers.Distinct) :
    t.world.timers.Distinct :=
  h.keeps (P := fun s => s.world.timers.Distinct) (fun hs hChange => hChange.distinct hs) hs

end Session

theorem Rules.Attains.distinct {rules : Rules} {s : Session} (h : rules.Attains s) :
    s.world.timers.Distinct :=
  h.invariant (P := fun s => s.world.timers.Distinct)
    (fun _ _ => ⟨fun ht => by simp [World.ofConfig, TimerSet.slot?, TimerSet.empty] at ht⟩)
    fun hs hChange => hChange.distinct hs

namespace Timer

/-- The timer after some more of its runs, as long as it has any left; a timer without a count has
always one left. -/
def afterRuns (t : Timer) (n : Nat) : Option Timer :=
  if t.count ≠ 0 ∧ t.count ≤ n then none
  else some { t with start := ⟨t.start.nanos + n * t.interval.nanos⟩, count := t.count - n }

theorem due?_eq_some_iff {t : Timer} {due : Duration} : t.due? = some due ↔
    due.nanos = t.start.nanos + t.interval.nanos ∧ due.nanos < Duration.limit := by
  unfold due? Duration.add?
  constructor
  · intro h
    split at h
    · cases h
      exact ⟨rfl, ‹_›⟩
    · cases h
  · rintro ⟨hSum, hFits⟩
    rw [← hSum, if_pos hFits]

/-- What becomes of a timer that runs. -/
theorem afterRuns_one {t : Timer} {due now : Duration} (hInterval : t.interval ≠ .zero)
    (hDue : t.due? = some due) :
    (if t.count = 1 then none else t.advanced? now) = t.afterRuns 1 := by
  have hSum := (due?_eq_some_iff.mp hDue).1
  unfold advanced? afterRuns
  rw [if_neg hInterval, hDue]
  split
  · rename_i hLast
    rw [if_pos (by omega)]
  · rename_i hMore
    rw [if_neg (by omega), Nat.one_mul, ← hSum]
    rfl

theorem afterRuns_zero (t : Timer) : t.afterRuns 0 = some t := by
  unfold afterRuns
  rw [if_neg (by omega), Nat.zero_mul, Nat.add_zero, Nat.sub_zero]

theorem afterRuns_interval {t u : Timer} {n : Nat} (h : t.afterRuns n = some u) :
    u.interval = t.interval := by
  unfold afterRuns at h
  split at h
  · cases h
  · cases h
    rfl

/-- Runs one after the other. -/
theorem afterRuns_bind {t u : Timer} {n : Nat} (h : t.afterRuns n = some u) (k : Nat) :
    u.afterRuns k = t.afterRuns (n + k) := by
  unfold afterRuns at h ⊢
  split at h
  · cases h
  · cases h
    dsimp only
    rw [Nat.add_mul, Nat.add_assoc, Nat.sub_sub]
    split
    · rw [if_pos (by omega)]
    · rw [if_neg (by omega)]

theorem afterRuns_eq_none_iff {t : Timer} {n : Nat} :
    t.afterRuns n = none ↔ t.count ≠ 0 ∧ t.count ≤ n := by
  unfold afterRuns
  split
  · rename_i hSpent
    exact iff_of_true rfl hSpent
  · rename_i hLeft
    exact iff_of_false nofun hLeft

/-- What is left of a timer after some runs is due for the next when that many intervals and one more
have passed. -/
theorem afterRuns_due? {t u : Timer} {n : Nat} {due : Duration} (h : t.afterRuns n = some u) :
    u.due? = some due ↔
      due.nanos = t.start.nanos + (n + 1) * t.interval.nanos ∧ due.nanos < Duration.limit := by
  rw [due?_eq_some_iff]
  unfold afterRuns at h
  split at h
  · cases h
  · cases h
    dsimp only
    rw [Nat.add_mul, Nat.one_mul, Nat.add_assoc]

/-- A timer that ran some times has to run again at a time. -/
def Owes (t : Timer) (n : Nat) (now : Duration) : Prop :=
  (t.count = 0 ∨ n < t.count) ∧ t.start.nanos + (n + 1) * t.interval.nanos ≤ now.nanos

instance (t : Timer) (n : Nat) (now : Duration) : Decidable (t.Owes n now) :=
  inferInstanceAs (Decidable (_ ∧ _))

end Timer

/-- A sweep as one timer has it: when it took place, and how often the timer ran. -/
structure Tally where
  clock : Duration
  runs : Nat
  deriving DecidableEq, Repr

/-- How often a timer ran in some sweeps. -/
def totalRuns : List Tally → Nat
  | [] => 0
  | first :: rest => first.runs + totalRuns rest

theorem totalRuns_append (sweeps : List Tally) (last : Tally) :
    totalRuns (sweeps ++ [last]) = totalRuns sweeps + last.runs := by
  induction sweeps with
  | nil => exact Nat.add_comm _ _
  | cons first rest ih => rw [List.cons_append, totalRuns, totalRuns, ih, Nat.add_assoc]

/-- A timer runs in each sweep that it owes a run, once, and in no other. -/
inductive Timer.Schedule (t : Timer) : List Tally → Prop where
  | nil : Schedule t []
  | snoc {sweeps : List Tally} (clock : Duration) (h : Schedule t sweeps) :
      Schedule t (sweeps ++ [⟨clock, if t.Owes (totalRuns sweeps) clock then 1 else 0⟩])

namespace Timer.Schedule

variable {t : Timer} {sweeps : List Tally}

theorem le_count (h : t.Schedule sweeps) (hCount : t.count ≠ 0) : totalRuns sweeps ≤ t.count := by
  induction h with
  | nil => exact Nat.zero_le _
  | snoc clock _ ih =>
      rw [totalRuns_append]
      dsimp only
      split
      · rename_i hOwes
        exact Nat.succ_le_of_lt (hOwes.1.resolve_left hCount)
      · exact ih

/-- A timer that has as many runs left makes them in as many sweeps that are late enough. -/
theorem enough (h : t.Schedule sweeps) {n : Nat} (hCount : t.count = 0 ∨ n ≤ t.count)
    (hLate : n ≤ sweeps.countP fun x => t.start.nanos + n * t.interval.nanos ≤ x.clock.nanos) :
    n ≤ totalRuns sweeps := by
  induction h generalizing n with
  | nil => exact hLate
  | @snoc sweeps clock _ ih =>
      rw [totalRuns_append]
      dsimp only
      rw [List.countP_append, List.countP_singleton] at hLate
      by_cases hBefore :
          n ≤ sweeps.countP fun x => t.start.nanos + n * t.interval.nanos ≤ x.clock.nanos
      · exact Nat.le_add_right_of_le (ih hCount hBefore)
      -- The last sweep is needed, so it is late enough, and all runs but one were made before.
      · obtain ⟨k, rfl⟩ : ∃ k, n = k + 1 := Nat.exists_eq_succ_of_ne_zero (by omega)
        have hLast : t.start.nanos + (k + 1) * t.interval.nanos ≤ clock.nanos := by
          apply Decidable.by_contra
          intro hEarly
          rw [if_neg (by simpa using hEarly)] at hLate
          exact hBefore hLate
        have hEarlier : (sweeps.countP fun x =>
              decide (t.start.nanos + (k + 1) * t.interval.nanos ≤ x.clock.nanos)) ≤
            sweeps.countP fun x => t.start.nanos + k * t.interval.nanos ≤ x.clock.nanos := by
          refine List.countP_mono_left fun x _ hx => decide_eq_true ?_
          have hLe := of_decide_eq_true hx
          rw [Nat.add_mul] at hLe
          omega
        rw [if_pos (decide_eq_true hLast)] at hLate
        have hMade : k ≤ totalRuns sweeps := ih (by omega) (by omega)
        by_cases hAll : k + 1 ≤ totalRuns sweeps
        · exact Nat.le_add_right_of_le hAll
        · obtain rfl : totalRuns sweeps = k := by omega
          exact Nat.add_le_add_left (Nat.le_of_eq (if_pos ⟨by omega, hLast⟩).symm) _

end Timer.Schedule

/-- The timers of an owner and a name that a sweep has fired. -/
def Sweep.runs (w : Sweep) (owner : EntityId) (name : String) : Nat :=
  w.fired.countP fun f => f.2.HasKey owner name

/-- The owner of a timer is live, and in the active zone if the timer is idle. -/
def Session.Attends (s : Session) (t : Timer) : Prop :=
  ∃ owner, s.world.entities.get? t.owner = some owner ∧ (t.idle = true → owner.inZone = true)

namespace Rules

variable {rules : Rules} {s : Session} {now : Duration} {w v : Sweep} {owner : EntityId}
  {name : String} {t : Timer}

/-- A visit comes upon a timer whose owner attends it: if it is due it is fired, else nothing
happens. -/
theorem Visits.attended (h : rules.Visits now w v)
    (hSlot : w.session.world.timers.slot? w.next = some t) (hAttends : w.session.Attends t) :
    ∃ due, t.due? = some due ∧
      ((due.nanos ≤ now.nanos ∧ w.session.fires? now w.next = some t) ∨
        (now.nanos < due.nanos ∧ w.session.fires? now w.next = none ∧ v.session = w.session)) := by
  obtain ⟨due, hDue⟩ := Option.isSome_iff_exists.mp (h.fits hSlot)
  obtain ⟨e, hOwner, hIdle⟩ := hAttends
  refine ⟨due, hDue, ?_⟩
  by_cases hReached : due.nanos ≤ now.nanos
  · refine .inl ⟨hReached, Option.filter_eq_some_iff.mpr ⟨hSlot, ?_⟩⟩
    cases hZone : t.idle with
    | false => simp [hDue, hReached, hOwner]
    | true => simp [hDue, hReached, hOwner, hIdle hZone]
  · obtain ⟨fuel, hVisit⟩ := h.session
    simp only [visitTimer_apply, hSlot, hDue, if_neg hReached, EStateM.Result.ok.injEq] at hVisit
    refine .inr ⟨Nat.lt_of_not_le hReached, ?_, hVisit.2.symm⟩
    refine Option.filter_eq_none_iff.mpr fun u hu => ?_
    cases hSlot.symm.trans hu
    simp [hDue, hReached]

/-- What the slots hold behind a visit was there before, was started meanwhile, or has come of the timer
that was visited. -/
theorem Visits.slots (hRegistry : rules.registry.OfBuiltins) (hNow : now.nanos < Duration.limit)
    (h : rules.Visits now w v) {i : Nat} (hSlot : v.session.world.timers.slot? i = some t) :
    w.session.world.timers.slot? i = some t ∨ t.start = w.session.world.clock ∨
      ∃ u, w.session.world.timers.slot? w.next = some u ∧ t.HasKey u.owner u.name := by
  obtain ⟨fuel, hVisit⟩ := h.session
  cases hFires : w.session.fires? now w.next with
  | none =>
      obtain ⟨u, hPassed, hPass⟩ | ⟨_, _, _, hFault⟩ := visitTimer_passes rules hNow hFires
      · cases (hPass fuel).symm.trans hVisit
        rcases hPassed with hSame | ⟨slot, hSet, hMoved⟩
        · rw [hSame] at hSlot
          exact .inl hSlot
        · rw [hSet] at hSlot
          rcases TimerSet.slot?_setSlot hSlot with ⟨_, hNew⟩ | hOld
          · obtain ⟨u, hu, hOn⟩ := hMoved t hNew
            exact .inr (.inr ⟨u, hu, hOn.owner, hOn.name⟩)
          · exact .inl hOld
      · cases (hFault fuel).symm.trans hVisit
  | some u =>
      rw [visitTimer_fires hFires] at hVisit
      obtain ⟨_, hLine⟩ := Action.discard_ok.mp hVisit
      rcases (runLine_timers hRegistry hLine).timers i t hSlot with hOld | hStarted
      · rcases TimerSet.slot?_setSlot hOld with ⟨_, hNew⟩ | hOlder
        · split at hNew
          · cases hNew
          · exact .inr (.inr ⟨u, Session.slot?_of_fires? hFires, Timer.advanced?_hasKey hNew⟩)
        · exact .inl hOlder
      · exact .inr (.inl hStarted)

/-- When a sweep fires a timer, its key holds what is left of it. -/
theorem get?_firing (hDistinct : s.world.timers.Distinct) {i : Nat}
    (hFires : s.fires? now i = some t) (hInterval : t.interval ≠ .zero) :
    (s.firing now i t).world.timers.get? t.owner t.name = t.afterRuns 1 := by
  obtain ⟨due, hDue, _⟩ := Session.due_of_fires? hFires
  have hKeeps : ∀ u ∈ (if t.count = 1 then none else t.advanced? now), u.HasKey t.owner t.name := by
    intro u hu
    split at hu
    · cases hu
    · exact Timer.advanced?_hasKey hu
  have hSet := TimerSet.setSlot_replaces hDistinct (Session.slot?_of_fires? hFires) _ hKeeps
  refine Option.ext fun u => (hSet.get?_eq_some_iff hDistinct).trans ?_
  rw [← Timer.afterRuns_one hInterval hDue]
  constructor
  · rintro (⟨j, hPlaced, _⟩ | ⟨_, hNot⟩)
    · obtain ⟨x, hx, hPair⟩ := Option.map_eq_some_iff.mp hPlaced
      cases hPair
      exact hx
    · exact absurd ⟨rfl, rfl⟩ hNot
  · intro hu
    exact .inl ⟨i, by rw [hu]; rfl, hKeeps u hu⟩

/-- A visit of a slot that does not hold the timer of a key leaves that timer as it is, if a line that it
runs does so. -/
theorem Visits.get?_eq (hNow : now.nanos < Duration.limit) (h : rules.Visits now w v)
    (hDistinct : w.session.world.timers.Distinct)
    (hSlot : ∀ u, w.session.world.timers.slot? w.next = some u → ¬ u.HasKey owner name)
    (hLine : ∀ u, w.session.fires? now w.next = some u →
      v.session.world.timers.get? owner name =
        (w.session.firing now w.next u).world.timers.get? owner name) :
    v.session.world.timers.get? owner name = w.session.world.timers.get? owner name ∧
      v.runs owner name = w.runs owner name := by
  have hSet : ∀ slot, (∀ moved, slot = some moved → ∃ t,
      w.session.world.timers.slot? w.next = some t ∧ moved.HasKey t.owner t.name) →
      (w.session.setTimer w.next slot).world.timers.get? owner name =
        w.session.world.timers.get? owner name := by
    intro slot hMoved
    obtain ⟨_, _, hAbout, hReplaces⟩ := TimerSet.exists_setSlot_replaces hDistinct hMoved
    refine hReplaces.get?_eq hDistinct fun hKey => ?_
    obtain ⟨u, hu, hKey⟩ := hAbout _ _ hKey
    exact hSlot u hu hKey
  obtain ⟨fuel, hVisit⟩ := h.session
  unfold Sweep.runs
  rcases h.fired_cases with ⟨hNone, hFired⟩ | ⟨u, hFires, hFired⟩
  · rw [hFired]
    refine ⟨?_, rfl⟩
    obtain ⟨x, hPassed, hPass⟩ | ⟨_, _, _, hFault⟩ := visitTimer_passes rules hNow hNone
    · cases (hPass fuel).symm.trans hVisit
      rcases hPassed with hSame | ⟨slot, hSession, hMoved⟩
      · rw [hSame]
      · rw [hSession]
        exact hSet slot fun moved hNew => (hMoved moved hNew).imp fun _ ⟨hHeld, hOn⟩ =>
          ⟨hHeld, hOn.owner, hOn.name⟩
    · cases (hFault fuel).symm.trans hVisit
  · have hHeld := Session.slot?_of_fires? hFires
    rw [hFired, List.countP_append]
    constructor
    · rw [hLine u hFires]
      refine hSet _ fun moved hNew => ⟨u, hHeld, ?_⟩
      split at hNew
      · cases hNew
      · exact Timer.advanced?_hasKey hNew
    · simp [hSlot u hHeld]

/-- Throughout a sweep the owner of the timer of a key attends it, and no line that is fired stops it or
starts it anew. -/
structure Undisturbed (rules : Rules) (owner : EntityId) (name : String) (s : Session) : Prop where
  attends : ∀ w t, rules.Sweeps s w → w.session.world.timers.get? owner name = some t →
    w.session.Attends t
  lines : ∀ w v t, rules.Sweeps s w → rules.Visits s.world.clock w v →
    w.session.fires? s.world.clock w.next = some t →
    v.session.world.timers.get? owner name =
      (w.session.firing s.world.clock w.next t).world.timers.get? owner name

theorem Sweeps.changes (hRegistry : rules.registry.OfBuiltins) (h : rules.Sweeps s w) :
    Leads Session.Change s w.session := by
  induction h with
  | refl => exact .refl
  | tail _ hVisit ih =>
      obtain ⟨fuel, hRun⟩ := hVisit.session
      exact ih.trans ((visitTimer_changes hRegistry fuel _ _).leads hRun)

/-- A timer that began before the sweep, and that a visit of another slot leaves as it is, stays in its
slot. -/
theorem Visits.stays {i : Nat} (hRegistry : rules.registry.OfBuiltins)
    (hNow : s.world.clock.nanos < Duration.limit) (hw : rules.Sweeps s w)
    (hApart : w.session.world.timers.Distinct) (hVisit : rules.Visits s.world.clock w v)
    (hSlot : w.session.world.timers.slot? i = some t) (hBegan : t.start ≠ s.world.clock)
    (hOther : w.next ≠ i) (hKept : v.session.world.timers.get? owner name = some t) :
    v.session.world.timers.slot? i = some t := by
  obtain ⟨j, hj, _⟩ := TimerSet.exists_slot?_of_get? hKept
  rcases hVisit.slots hRegistry hNow hj with hOld | hStarted | ⟨u, hu, hOf⟩
  · rwa [hApart.apart hSlot hOld ⟨rfl, rfl⟩]
  · exact absurd (hStarted.trans (Sweeps.swept hRegistry hNow hw).clock) hBegan
  · exact absurd (hApart.apart hu hSlot hOf) hOther

/-- A visit that does not fire the timer of a key leaves it as it is. -/
theorem Undisturbed.quiet (hU : rules.Undisturbed owner name s)
    (hNow : s.world.clock.nanos < Duration.limit) (hw : rules.Sweeps s w)
    (hDistinct : w.session.world.timers.Distinct) (hVisit : rules.Visits s.world.clock w v)
    (hQuiet : ∀ t, w.session.world.timers.get? owner name = some t →
      w.session.fires? s.world.clock w.next ≠ some t) :
    v.session.world.timers.get? owner name = w.session.world.timers.get? owner name ∧
      v.runs owner name = w.runs owner name := by
  by_cases hOwn : ∃ t, w.session.world.timers.slot? w.next = some t ∧ t.HasKey owner name
  · obtain ⟨t, hSlot, hKey⟩ := hOwn
    have hGet := hDistinct.get?_eq_some_iff.mpr ⟨_, hSlot, hKey⟩
    obtain ⟨_, _, ⟨_, hFires⟩ | ⟨_, hNone, hSame⟩⟩ := hVisit.attended hSlot (hU.attends w t hw hGet)
    · exact absurd hFires (hQuiet t hGet)
    · rcases hVisit.fired_cases with ⟨_, hFired⟩ | ⟨u, hFires, _⟩
      · exact ⟨by rw [hSame], by rw [Sweep.runs, hFired]; rfl⟩
      · cases hNone.symm.trans hFires
  · exact hVisit.get?_eq hNow hDistinct (fun u hu hKey => hOwn ⟨u, hu, hKey⟩)
      (hU.lines w v · hw hVisit)

section Undisturbed

variable (hRegistry : rules.registry.OfBuiltins) (hNow : s.world.clock.nanos < Duration.limit)
  (hDistinct : s.world.timers.Distinct) (hU : rules.Undisturbed owner name s)

include hRegistry hNow hDistinct hU

/-- A sweep leaves a timer as it is that is not due. -/
theorem Undisturbed.rests
    (hLater : ∀ t due, s.world.timers.get? owner name = some t → t.due? = some due →
      s.world.clock.nanos < due.nanos) (hw : rules.Sweeps s w) :
    w.session.world.timers.get? owner name = s.world.timers.get? owner name ∧
      w.runs owner name = 0 := by
  induction hw with
  | refl => exact ⟨rfl, rfl⟩
  | @tail m v hReach hVisit ih =>
      have hQuiet : ∀ t, m.session.world.timers.get? owner name = some t →
          m.session.fires? s.world.clock m.next ≠ some t := by
        intro t ht hFires
        obtain ⟨due, hDue, hReached⟩ := Session.due_of_fires? hFires
        exact absurd hReached (Nat.not_le.mpr (hLater t due (ih.1.symm.trans ht) hDue))
      have hKept := hU.quiet hNow hReach
        (Session.distinct_of_leads (Sweeps.changes hRegistry hReach) hDistinct) hVisit hQuiet
      exact ⟨hKept.1.trans ih.1, hKept.2.trans ih.2⟩

omit hDistinct in
/-- A timer that began before the sweep waits in its slot while other slots are visited. -/
theorem Undisturbed.waits {i : Nat} (hw : rules.Sweeps s w)
    (hApart : w.session.world.timers.Distinct) (hVisit : rules.Visits s.world.clock w v)
    (hSlot : w.session.world.timers.slot? i = some t) (hKey : t.HasKey owner name)
    (hBegan : t.start ≠ s.world.clock) (hOther : w.next ≠ i) :
    v.session.world.timers.slot? i = some t ∧ v.runs owner name = w.runs owner name := by
  have hFound := hApart.get?_eq_some_iff.mpr ⟨i, hSlot, hKey⟩
  have hQuiet : ∀ u, w.session.world.timers.get? owner name = some u →
      w.session.fires? s.world.clock w.next ≠ some u := by
    intro u hu hFires
    cases hFound.symm.trans hu
    exact hOther (hApart.apart (Session.slot?_of_fires? hFires) hSlot ⟨rfl, rfl⟩)
  have hKept := hU.quiet hNow hw hApart hVisit hQuiet
  exact ⟨hVisit.stays hRegistry hNow hw hApart hSlot hBegan hOther (hKept.1.trans hFound), hKept.2⟩

omit hRegistry hNow hDistinct in
/-- It runs when the sweep comes to its slot. -/
theorem Undisturbed.runs_there {due : Duration} (hw : rules.Sweeps s w)
    (hApart : w.session.world.timers.Distinct) (hVisit : rules.Visits s.world.clock w v)
    (hSlot : w.session.world.timers.slot? w.next = some t) (hKey : t.HasKey owner name)
    (hInterval : t.interval ≠ .zero) (hDue : t.due? = some due)
    (hReached : due.nanos ≤ s.world.clock.nanos) :
    v.session.world.timers.get? owner name = t.afterRuns 1 ∧
      v.runs owner name = w.runs owner name + 1 := by
  have hFound := hApart.get?_eq_some_iff.mpr ⟨_, hSlot, hKey⟩
  obtain ⟨due', hDue', ⟨_, hFires⟩ | ⟨hLater, _⟩⟩ :=
    hVisit.attended hSlot (hU.attends w t hw hFound)
  · have hLeft := get?_firing hApart hFires hInterval
    rw [hKey.1, hKey.2] at hLeft
    refine ⟨(hU.lines w v t hw hVisit hFires).trans hLeft, ?_⟩
    simp only [Sweep.runs]
    rw [hVisit.fired, hFires, List.countP_append]
    simp [hKey]
  · cases hDue.symm.trans hDue'
    omega

/-- A sweep up to its end fires a timer once that is due. -/
theorem Undisturbed.runs {due : Duration} (hGet : s.world.timers.get? owner name = some t)
    (hInterval : t.interval ≠ .zero) (hDue : t.due? = some due)
    (hReached : due.nanos ≤ s.world.clock.nanos) (hw : rules.Sweeps s w)
    (hEnd : w.session.world.timers.slots.size ≤ w.next) :
    w.session.world.timers.get? owner name = t.afterRuns 1 ∧ w.runs owner name = 1 := by
  obtain ⟨i, hSlot, hKey⟩ := hDistinct.get?_eq_some_iff.mp hGet
  have hBegan : t.start ≠ s.world.clock := fun hStart =>
    hInterval (Timer.interval_of_due hDue hStart hReached)
  -- The timer stays in its slot until the sweep comes there, and behind it does not run again.
  have hCourse : ∀ w, rules.Sweeps s w →
      (w.next ≤ i ∧ w.session.world.timers.slot? i = some t ∧ w.runs owner name = 0) ∨
      (i < w.next ∧ w.session.world.timers.get? owner name = t.afterRuns 1 ∧
        w.runs owner name = 1) := by
    intro w hw
    induction hw with
    | refl => exact .inl ⟨Nat.zero_le i, hSlot, rfl⟩
    | @tail m v hReach hVisit ih =>
        have hApart := Session.distinct_of_leads (Sweeps.changes hRegistry hReach) hDistinct
        have hNext := hVisit.next
        rcases ih with ⟨hAhead, hHeld, hNone⟩ | ⟨hBehind, hRan, hOnce⟩
        · rcases Nat.lt_or_eq_of_le hAhead with hBefore | rfl
          · have hKept := hU.waits hRegistry hNow hReach hApart hVisit hHeld hKey hBegan
              (Nat.ne_of_lt hBefore)
            exact .inl ⟨by omega, hKept.1, hKept.2.trans hNone⟩
          · have hRuns := hU.runs_there hReach hApart hVisit hHeld hKey hInterval hDue hReached
            exact .inr ⟨by omega, hRuns.1, by rw [hRuns.2, hNone]⟩
        · have hQuiet : ∀ u, m.session.world.timers.get? owner name = some u →
              m.session.fires? s.world.clock m.next ≠ some u := by
            intro u hu hFires
            rcases (Sweeps.swept hRegistry hNow hReach).stood hFires with hStood | hNoInterval
            · obtain ⟨_, _, hKey'⟩ := TimerSet.exists_slot?_of_get? hu
              have := hDistinct.apart hStood hSlot
                ⟨hKey.1.trans hKey'.1.symm, hKey.2.trans hKey'.2.symm⟩
              omega
            · exact hInterval ((Timer.afterRuns_interval (hRan.symm.trans hu)).symm.trans hNoInterval)
          have hKept := hU.quiet hNow hReach hApart hVisit hQuiet
          exact .inr ⟨by omega, hKept.1.trans hRan, hKept.2.trans hOnce⟩
  rcases hCourse w hw with ⟨hBefore, hHeld, _⟩ | ⟨_, hDone⟩
  · have := TimerSet.slot?_isSome_lt hHeld
    omega
  · exact hDone

end Undisturbed

/-- What a sweep up to its end makes of a timer that has run some times. -/
theorem Undisturbed.sweep_runs (hRegistry : rules.registry.OfBuiltins)
    (hNow : s.world.clock.nanos < Duration.limit) (hDistinct : s.world.timers.Distinct)
    (hU : rules.Undisturbed owner name s) {n : Nat}
    (hGet : s.world.timers.get? owner name = t.afterRuns n) (hInterval : t.interval ≠ .zero)
    (hw : rules.Sweeps s w) (hEnd : w.session.world.timers.slots.size ≤ w.next) :
    w.runs owner name = (if t.Owes n s.world.clock then 1 else 0) ∧
      w.session.world.timers.get? owner name = t.afterRuns (n + w.runs owner name) := by
  by_cases hOwes : t.Owes n s.world.clock
  · obtain ⟨u, hu⟩ : ∃ u, t.afterRuns n = some u := by
      refine Option.ne_none_iff_exists'.mp fun hNone => ?_
      have := Timer.afterRuns_eq_none_iff.mp hNone
      have := hOwes.1
      omega
    have hDue : u.due? = some ⟨t.start.nanos + (n + 1) * t.interval.nanos⟩ :=
      (Timer.afterRuns_due? hu).mpr ⟨rfl, Nat.lt_of_le_of_lt hOwes.2 hNow⟩
    have hRuns := hU.runs hRegistry hNow hDistinct (hGet.trans hu)
      (Timer.afterRuns_interval hu ▸ hInterval) hDue hOwes.2 hw hEnd
    rw [if_pos hOwes, hRuns.2, hRuns.1, Timer.afterRuns_bind hu]
    exact ⟨rfl, rfl⟩
  · have hLater : ∀ u due, s.world.timers.get? owner name = some u → u.due? = some due →
        s.world.clock.nanos < due.nanos := by
      intro u due hu hDue
      have hLeft := hGet.symm.trans hu
      have hSum := ((Timer.afterRuns_due? hLeft).mp hDue).1
      have hMore : t.afterRuns n ≠ none := by
        rw [hLeft]
        exact nofun
      rw [ne_eq, Timer.afterRuns_eq_none_iff] at hMore
      have hEarly : ¬ t.start.nanos + (n + 1) * t.interval.nanos ≤ s.world.clock.nanos :=
        fun hLate => hOwes ⟨by omega, hLate⟩
      omega
    have hRests := hU.rests hRegistry hNow hDistinct hLater hw
    rw [if_neg hOwes, hRests.2, hRests.1, hGet]
    exact ⟨rfl, rfl⟩

end Rules

/-- A session with the sweeps that took place, as one timer has them. -/
structure Watch where
  session : Session
  sweeps : List Tally

/-- Time goes on. Between sweeps anything may happen that does not concern the timer of the key, and the
clock does not go back; a sweep goes up to its end. -/
inductive Rules.Elapses (rules : Rules) (owner : EntityId) (name : String) : Watch → Watch → Prop where
  | meanwhile {s t : Session} {sweeps : List Tally} (hChanges : Leads Session.Change s t)
      (hClock : s.world.clock.nanos ≤ t.world.clock.nanos)
      (hKept : t.world.timers.get? owner name = s.world.timers.get? owner name) :
      Elapses rules owner name ⟨s, sweeps⟩ ⟨t, sweeps⟩
  | sweep {s : Session} {sweeps : List Tally} {w : Sweep}
      (hFits : s.world.clock.nanos < Duration.limit) (hSweep : rules.Sweeps s w)
      (hEnd : w.session.world.timers.slots.size ≤ w.next)
      (hUndisturbed : rules.Undisturbed owner name s) :
      Elapses rules owner name ⟨s, sweeps⟩
        ⟨w.session, sweeps ++ [⟨s.world.clock, w.runs owner name⟩]⟩

/-- How a timer stands after the sweeps that took place: it ran on schedule, and not more often than
intervals have passed. -/
structure Watch.Keeps (w : Watch) (owner : EntityId) (name : String) (t : Timer) : Prop where
  schedule : t.Schedule w.sweeps
  timer : w.session.world.timers.get? owner name = t.afterRuns (totalRuns w.sweeps)
  bound : totalRuns w.sweeps ≤ (w.session.world.clock.since t.start).nanos / t.interval.nanos

namespace Rules

variable {rules : Rules} {owner : EntityId} {name : String} {start : Session} {t : Timer}
  {v w : Watch}

theorem Elapses.changes (hRegistry : rules.registry.OfBuiltins) (h : rules.Elapses owner name v w) :
    Leads Session.Change v.session w.session := by
  cases h with
  | meanwhile hChanges => exact hChanges
  | sweep _ hSweep => exact Sweeps.changes hRegistry hSweep

/-- As time goes on, a timer keeps to its schedule. -/
theorem Elapses.keeps (hRegistry : rules.registry.OfBuiltins) (hInterval : t.interval ≠ .zero)
    (hDistinct : v.session.world.timers.Distinct) (hv : v.Keeps owner name t)
    (h : rules.Elapses owner name v w) : w.Keeps owner name t := by
  have hPositive : 0 < t.interval.nanos :=
    Nat.pos_of_ne_zero fun hZero => hInterval (congrArg Duration.mk hZero)
  cases h with
  | meanwhile _ hClock hKept =>
      refine ⟨hv.schedule, hKept.trans hv.timer, Nat.le_trans hv.bound ?_⟩
      exact Nat.div_le_div_right (Nat.sub_le_sub_right hClock _)
  | @sweep s sweeps m hFits hSweep hEnd hUndisturbed =>
      obtain ⟨hRuns, hTimer⟩ :=
        hUndisturbed.sweep_runs hRegistry hFits hDistinct hv.timer hInterval hSweep hEnd
      have hClock := (Sweeps.swept hRegistry hFits hSweep).clock
      refine ⟨?_, ?_, ?_⟩
      · rw [hRuns]
        exact hv.schedule.snoc _
      · rw [totalRuns_append]
        exact hTimer
      · have hBefore := hv.bound
        rw [totalRuns_append, hClock]
        dsimp only at hBefore ⊢
        rw [hRuns]
        split
        · rename_i hOwes
          rw [Nat.le_div_iff_mul_le hPositive]
          exact Nat.le_sub_of_add_le' hOwes.2
        · exact hBefore

/-- A timer with an interval runs as scheduled, as long as nothing stops it or starts it anew: once in
each sweep that finds as many intervals passed since it began as it ran times before and one more, and
has runs left, and in no other sweep. After each sweep what is left of it stands where that many
intervals end, and it is gone with its last run. It does not run more often than intervals have passed,
and it makes its runs if there are as many sweeps that are late enough. -/
theorem timer_runs_on_schedule (hRegistry : rules.registry.OfBuiltins) (hStart : rules.Attains start)
    (hTimer : start.world.timers.get? owner name = some t) (hInterval : t.interval ≠ .zero)
    (hRun : Leads (rules.Elapses owner name) ⟨start, []⟩ w) :
    t.Schedule w.sweeps ∧
    w.session.world.timers.get? owner name = t.afterRuns (totalRuns w.sweeps) ∧
    (t.count ≠ 0 → totalRuns w.sweeps ≤ t.count) ∧
    totalRuns w.sweeps ≤ (w.session.world.clock.since t.start).nanos / t.interval.nanos ∧
    ∀ n, t.count = 0 ∨ n ≤ t.count →
      n ≤ w.sweeps.countP (fun x => t.start.nanos + n * t.interval.nanos ≤ x.clock.nanos) →
      n ≤ totalRuns w.sweeps := by
  obtain ⟨hDistinct, hKeeps⟩ : w.session.world.timers.Distinct ∧ w.Keeps owner name t := by
    induction hRun with
    | refl =>
        refine ⟨hStart.distinct, .nil, ?_, Nat.zero_le _⟩
        rw [hTimer, totalRuns, t.afterRuns_zero]
    | tail _ last ih =>
        exact ⟨Session.distinct_of_leads (last.changes hRegistry) ih.1,
          last.keeps hRegistry hInterval ih.1 ih.2⟩
  exact ⟨hKeeps.schedule, hKeeps.timer, hKeeps.schedule.le_count, hKeeps.bound,
    fun n => hKeeps.schedule.enough⟩

/-- A session in which the timer that is due after a second was just started. -/
def startedSession : Session :=
  (Session.spawn { className := "npc" } ⟨.ofConfig plain.config, .silent, #[]⟩).2.startTimer secondTimer

/-- The same session a second later. -/
def dueSession : Session := startedSession.onWorld fun w => { w with clock := ⟨Duration.second⟩ }

theorem startedSession_attained : plain.Attains startedSession :=
  (Attains.spawn ⟨.silent, #[], .refl⟩ { className := "npc" }).startTimer (by decide) rfl

set_option maxRecDepth 100000 in
/-- The sweep after a second runs the timer for the first of its two times. -/
theorem timer_runs_on_schedule_startedSession :
    plain.Attains startedSession ∧
    startedSession.world.timers.get? ⟨0⟩ "second" = some secondTimer ∧
    secondTimer.interval ≠ .zero ∧
    ∃ w, Leads (plain.Elapses ⟨0⟩ "second") ⟨startedSession, []⟩ w ∧
      secondTimer.Schedule w.sweeps ∧ totalRuns w.sweeps = 1 ∧
      w.session.world.timers.get? ⟨0⟩ "second" =
        some { secondTimer with count := 1, start := ⟨Duration.second⟩ } := by
  have hStart := startedSession_attained
  have hTimer : startedSession.world.timers.get? ⟨0⟩ "second" = some secondTimer := by
    decide +kernel
  have hInterval : secondTimer.interval ≠ .zero := by decide
  have hNow : dueSession.world.clock.nanos < Duration.limit := by decide
  have hLater : plain.Elapses ⟨0⟩ "second" ⟨startedSession, []⟩ ⟨dueSession, []⟩ :=
    .meanwhile (.tail .refl (.plain fun _ => ⟨⟨rfl, rfl, fun _ => rfl⟩, rfl, rfl⟩)) (by decide) rfl
  have hFires : dueSession.fires? dueSession.world.clock 0 = some secondTimer := by decide +kernel
  have hRun : Result.passes (fun _ u => u.world.timers.slots.size = 1 ∧
        (u.world.entities.get? ⟨0⟩).isSome ∧
        u.world.timers.get? ⟨0⟩ "second" =
          (dueSession.firing dueSession.world.clock 0 secondTimer).world.timers.get? ⟨0⟩ "second" ∧
        (u.world.timers.get? ⟨0⟩ "second").all fun t => t.owner = ⟨0⟩ ∧ t.idle = false)
      (plain.visitTimer 1 dueSession.world.clock 0 dueSession) = true := by decide +kernel
  obtain ⟨_, u, hVisit, hPasses⟩ := Result.exists_of_passes hRun
  obtain ⟨hSize, hLive, hKept, hOwned⟩ := of_decide_eq_true hPasses
  have hFirst : plain.Visits dueSession.world.clock ⟨0, dueSession, []⟩
      ⟨1, u, [(0, secondTimer)]⟩ := ⟨by decide +kernel, rfl, by rw [hFires]; rfl, 1, hVisit⟩
  have hEnd : u.world.timers.slots.size ≤ 1 := Nat.le_of_eq hSize
  have hUndisturbed : plain.Undisturbed ⟨0⟩ "second" dueSession := by
    constructor
    · intro w t hw ht
      rcases Sweeps.single hNow hFirst hEnd hw with rfl | rfl
      · cases hTimer.symm.trans ht
        exact ⟨_, rfl, fun hIdle => by cases hIdle⟩
      · obtain ⟨e, he⟩ := Option.isSome_iff_exists.mp hLive
        simp only at ht
        rw [ht] at hOwned
        obtain ⟨hOwner, hIdle⟩ := of_decide_eq_true hOwned
        exact ⟨e, by rw [hOwner]; exact he, by simp [hIdle]⟩
    · intro w v t hw hv ht
      rcases Sweeps.single hNow hFirst hEnd hw with rfl | rfl
      · cases Visits.unique hNow _ _ _ hv hFirst
        cases hFires.symm.trans ht
        exact hKept
      · exact absurd hv.slot (Nat.not_lt.mpr hEnd)
  have hElapses := (Leads.refl.tail hLater).tail
    (.sweep hNow (.tail .refl hFirst) hEnd hUndisturbed)
  obtain ⟨hSchedule, hLeft, _⟩ :=
    timer_runs_on_schedule Registry.builtins_ofBuiltins hStart hTimer hInterval hElapses
  have hOnce : totalRuns ([] ++ [⟨dueSession.world.clock,
      Sweep.runs ⟨1, u, [(0, secondTimer)]⟩ ⟨0⟩ "second"⟩]) = 1 := by
    rw [totalRuns_append, Sweep.runs, List.countP_singleton]
    decide
  rw [hOnce] at hLeft
  exact ⟨hStart, hTimer, hInterval, _, hElapses, hSchedule, hOnce, hLeft⟩

end Rules

end EntityScript
