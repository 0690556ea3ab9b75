import EntityScript.Proofs.Schedule

/-! How an idle timer of an owner outside the active zone catches up with the clock. A sweep moves it on
by whole intervals without running it, so it keeps its phase; the number of those intervals is kept in 32
bits, so the timer reaches the current interval unless it missed more of them than that. -/
namespace EntityScript

namespace Timer

variable {t : Timer} {now due : Duration} {n : Nat}

/-- The timer some intervals later. -/
def later (t : Timer) (n : Nat) : Timer :=
  { t with start := ⟨t.start.nanos + n * t.interval.nanos⟩ }

/-- The number of whole intervals of a timer that have passed at a time. -/
def passed (t : Timer) (now : Duration) : Nat := (now.since t.start).nanos / t.interval.nanos

theorem later_zero (t : Timer) : t.later 0 = t := by
  rw [later, Nat.zero_mul, Nat.add_zero]

theorem later_later (t : Timer) (n k : Nat) : (t.later n).later k = t.later (n + k) := by
  simp only [later, Nat.add_mul, Nat.add_assoc]

theorem passed_later (t : Timer) (n : Nat) (now : Duration) :
    (t.later n).passed now = t.passed now - n := by
  simp only [passed, later, Duration.since]
  rw [← Nat.sub_sub, Nat.mul_comm]
  exact Nat.sub_mul_div _ _ _

theorem interval_pos (hInterval : t.interval ≠ .zero) : 0 < t.interval.nanos :=
  Nat.pos_of_ne_zero fun hZero => hInterval (congrArg Duration.mk hZero)

/-- Each interval that has passed began by that time. -/
theorem later_start_le (hStart : t.start.nanos ≤ now.nanos) (hPassed : n ≤ t.passed now) :
    (t.later n).start.nanos ≤ now.nanos := by
  have hWhole : n * t.interval.nanos ≤ now.nanos - t.start.nanos :=
    Nat.le_trans (Nat.mul_le_mul_right _ hPassed) (Nat.div_mul_le_self _ _)
  simp only [later]
  omega

/-- Of the intervals that have passed, the last is the one that the time lies in. -/
theorem lt_later_iff (hInterval : t.interval ≠ .zero) (hStart : t.start.nanos ≤ now.nanos)
    (hPassed : n ≤ t.passed now) :
    now.nanos < (t.later n).start.nanos + t.interval.nanos ↔ n = t.passed now := by
  have hEnd : (t.later n).start.nanos + t.interval.nanos =
      t.start.nanos + (n + 1) * t.interval.nanos := by
    rw [later, Nat.add_assoc, Nat.add_mul, Nat.one_mul]
  have hBeyond : now.nanos - t.start.nanos < (n + 1) * t.interval.nanos ↔ t.passed now < n + 1 :=
    (Nat.div_lt_iff_lt_mul (interval_pos hInterval)).symm
  rw [hEnd]
  omega

/-- As long as a timer is not due, none of its intervals has passed. -/
theorem passed_eq_zero (hDue : t.due? = some due) (hEarly : now.nanos < due.nanos) :
    t.passed now = 0 := by
  have hSum := (due?_eq_some_iff.mp hDue).1
  rw [passed, Nat.div_eq_zero_iff]
  simp only [Duration.since]
  omega

/-- The timer after it caught up with a time. -/
def caught (t : Timer) (now : Duration) : Timer := t.later (t.passed now % UInt32.size)

/-- A timer that starts now has nothing to catch up with. -/
theorem caught_start (hStart : t.start = now) : t.caught now = t := by
  simp [caught, passed, Duration.since, hStart, later_zero]

theorem caughtUp?_eq (hInterval : t.interval ≠ .zero) (hStart : t.start.nanos ≤ now.nanos)
    (hNow : now.nanos < Duration.limit) : t.caughtUp? now = some (t.caught now) := by
  have hWithin := later_start_le hStart (Nat.mod_le (t.passed now) UInt32.size)
  unfold caughtUp?
  rw [if_neg hInterval]
  simp only [Duration.add?, Nat.mul_comm t.interval.nanos]
  exact if_pos (Nat.lt_of_le_of_lt hWithin hNow) ▸ rfl

/-- Catching up moves a timer on by whole intervals and not beyond the time; it reaches the interval
that the time lies in exactly if the number of those that have passed fits in 32 bits. -/
theorem caught_reaches_iff (hInterval : t.interval ≠ .zero) (hStart : t.start.nanos ≤ now.nanos) :
    (t.caught now).start.nanos ≤ now.nanos ∧
      (now.nanos < (t.caught now).start.nanos + t.interval.nanos ↔ t.passed now < UInt32.size) := by
  have hLe := Nat.mod_le (t.passed now) UInt32.size
  refine ⟨later_start_le hStart hLe, (lt_later_iff hInterval hStart hLe).trans ?_⟩
  exact Nat.mod_eq_iff_lt (by decide)

/-- How many intervals a timer was moved on by in some sweeps, in each of which it caught up. -/
def skipped (t : Timer) (sweeps : List Tally) : Nat :=
  sweeps.foldl (fun n sweep => n + (t.passed sweep.clock - n) % UInt32.size) 0

theorem skipped_append (t : Timer) (sweeps : List Tally) (last : Tally) :
    t.skipped (sweeps ++ [last]) =
      t.skipped sweeps + (t.passed last.clock - t.skipped sweeps) % UInt32.size := by
  rw [skipped, List.foldl_append]
  rfl

/-- Catching up once more after some sweeps. -/
theorem caught_later (t : Timer) (sweeps : List Tally) (last : Tally) :
    (t.later (t.skipped sweeps)).caught last.clock = t.later (t.skipped (sweeps ++ [last])) := by
  rw [caught, passed_later, later_later, skipped_append]

end Timer

/-- The timer is idle, and its owner is live outside the active zone. -/
def Session.Suspends (s : Session) (t : Timer) : Prop :=
  t.idle = true ∧ ∃ owner, s.world.entities.get? t.owner = some owner ∧ owner.inZone = false

namespace Rules

variable {rules : Rules} {s : Session} {now : Duration} {w v : Sweep} {owner : EntityId}
  {name : String} {t : Timer}

/-- A visit that comes upon a suspended timer makes it catch up, and fires nothing. -/
theorem Visits.suspended (h : rules.Visits now w v) (hNow : now.nanos < Duration.limit)
    (hDistinct : w.session.world.timers.Distinct)
    (hSlot : w.session.world.timers.slot? w.next = some t) (hInterval : t.interval ≠ .zero)
    (hSuspends : w.session.Suspends t) :
    v.session.world.timers.get? t.owner t.name = some (t.caught now) ∧ v.fired = w.fired := by
  obtain ⟨due, hDue⟩ := Option.isSome_iff_exists.mp (h.fits hSlot)
  obtain ⟨hIdle, e, hOwner, hOutside⟩ := hSuspends
  constructor
  · obtain ⟨fuel, hVisit⟩ := h.session
    rw [visitTimer_apply, hSlot] at hVisit
    simp only [hDue, hOwner, hIdle, hOutside] at hVisit
    by_cases hReached : due.nanos ≤ now.nanos
    · have hStart := Nat.le_trans (Timer.start_le_due hDue) hReached
      rw [if_pos hReached, Timer.caughtUp?_eq hInterval hStart hNow] at hVisit
      simp only [Bool.not_false, Bool.and_self, if_true, EStateM.Result.ok.injEq, true_and] at hVisit
      rw [← hVisit]
      have hKeeps : ∀ u ∈ some (t.caught now), u.HasKey t.owner t.name := by
        rintro u ⟨⟩
        exact ⟨rfl, rfl⟩
      have hSet := TimerSet.setSlot_replaces hDistinct hSlot (some (t.caught now)) hKeeps
      exact (hSet.get?_eq_some_iff hDistinct).mpr (.inl ⟨w.next, rfl, rfl, rfl⟩)
    · rw [if_neg hReached] at hVisit
      simp only [EStateM.Result.ok.injEq, true_and] at hVisit
      rw [← hVisit, Timer.caught, Timer.passed_eq_zero hDue (Nat.lt_of_not_le hReached), Nat.zero_mod,
        Timer.later_zero]
      exact hDistinct.get?_eq_some_iff.mpr ⟨w.next, hSlot, rfl, rfl⟩
  · rcases h.fired_cases with ⟨_, hFired⟩ | ⟨u, hFires, _⟩
    · exact hFired
    · obtain ⟨hSlot', hMeets⟩ := Option.filter_eq_some_iff.mp hFires
      cases hSlot.symm.trans hSlot'
      simp [hOwner, hIdle, hOutside] at hMeets

/-- Throughout a sweep the timer of a key is suspended, and no line that is fired stops it or starts it
anew. -/
structure Dormant (rules : Rules) (owner : EntityId) (name : String) (s : Session) : Prop where
  suspends : ∀ w t, rules.Sweeps s w → w.session.world.timers.get? owner name = some t →
    w.session.Suspends t
  lines : ∀ w v t, rules.Sweeps s w → rules.Visits s.world.clock w v →
    w.session.fires? s.world.clock w.next = some t →
    v.session.world.timers.get? owner name =
      (w.session.firing s.world.clock w.next t).world.timers.get? owner name

section Dormant

variable (hRegistry : rules.registry.OfBuiltins) (hNow : s.world.clock.nanos < Duration.limit)
  (hDormant : rules.Dormant owner name s)

include hNow hDormant

/-- A visit of the slot that holds the timer makes it catch up, and any other visit leaves it as it
is. -/
theorem Dormant.visit (hw : rules.Sweeps s w) (hApart : w.session.world.timers.Distinct)
    (hVisit : rules.Visits s.world.clock w v)
    (hGet : w.session.world.timers.get? owner name = some t) (hInterval : t.interval ≠ .zero) :
    v.session.world.timers.get? owner name =
        some (if w.session.world.timers.slot? w.next = some t then t.caught s.world.clock else t) ∧
      v.runs owner name = w.runs owner name := by
  obtain ⟨i, hi, hKey⟩ := hApart.get?_eq_some_iff.mp hGet
  split
  · rename_i hSlot
    have hSuspends := hDormant.suspends w t hw hGet
    obtain ⟨hCaught, hFired⟩ := hVisit.suspended hNow hApart hSlot hInterval hSuspends
    rw [hKey.1, hKey.2] at hCaught
    exact ⟨hCaught, by rw [Sweep.runs, hFired]; rfl⟩
  · rename_i hOther
    have hNot : ∀ u, w.session.world.timers.slot? w.next = some u → ¬ u.HasKey owner name := by
      intro u hu hKey'
      have hSame := hApart.apart hi hu ⟨hKey'.1.trans hKey.1.symm, hKey'.2.trans hKey.2.symm⟩
      exact hOther (hSame ▸ hi)
    rw [← hGet]
    exact hVisit.get?_eq hNow hApart hNot (hDormant.lines w v · hw hVisit)

include hRegistry

/-- A timer that started when the sweep began is left as it is, in whatever slot it stands. -/
theorem Dormant.leaves (hDistinct : s.world.timers.Distinct)
    (hGet : s.world.timers.get? owner name = some t) (hInterval : t.interval ≠ .zero)
    (hBegan : t.start = s.world.clock) (hw : rules.Sweeps s w) :
    w.session.world.timers.get? owner name = some t ∧ w.runs owner name = 0 := by
  induction hw with
  | refl => exact ⟨hGet, rfl⟩
  | @tail m v hReach hVisit ih =>
      have hApart := Session.distinct_of_leads (Sweeps.changes hRegistry hReach) hDistinct
      obtain ⟨hKept, hRuns⟩ := hDormant.visit hNow hReach hApart hVisit ih.1 hInterval
      rw [Timer.caught_start hBegan, ite_self] at hKept
      exact ⟨hKept, hRuns.trans ih.2⟩

/-- A timer that started before the sweep stays in its slot until the sweep comes there. Behind it the
timer has caught up, and does not catch up again. -/
theorem Dormant.course (hDistinct : s.world.timers.Distinct) {i : Nat}
    (hSlot : s.world.timers.slot? i = some t) (hKey : t.HasKey owner name)
    (hInterval : t.interval ≠ .zero) (hBegan : t.start ≠ s.world.clock) (hw : rules.Sweeps s w) :
    ((w.next ≤ i ∧ w.session.world.timers.slot? i = some t) ∨
      (i < w.next ∧ w.session.world.timers.get? owner name = some (t.caught s.world.clock))) ∧
    w.runs owner name = 0 := by
  induction hw with
  | refl => exact ⟨.inl ⟨Nat.zero_le i, hSlot⟩, rfl⟩
  | @tail m v hReach hVisit ih =>
      have hApart := Session.distinct_of_leads (Sweeps.changes hRegistry hReach) hDistinct
      have hNext := hVisit.next
      obtain ⟨⟨hAhead, hHeld⟩ | ⟨hBehind, hDone⟩, hNone⟩ := ih
      · have hFound := hApart.get?_eq_some_iff.mpr ⟨i, hHeld, hKey⟩
        obtain ⟨hKept, hRuns⟩ := hDormant.visit hNow hReach hApart hVisit hFound hInterval
        refine ⟨?_, hRuns.trans hNone⟩
        rcases Nat.lt_or_eq_of_le hAhead with hBefore | rfl
        · rw [if_neg fun hThere => Nat.ne_of_lt hBefore (hApart.apart hThere hHeld ⟨rfl, rfl⟩)]
            at hKept
          exact .inl ⟨by omega, hVisit.stays hRegistry hNow hReach hApart hHeld hBegan
            (Nat.ne_of_lt hBefore) hKept⟩
        · rw [if_pos hHeld] at hKept
          exact .inr ⟨by omega, hKept⟩
      · obtain ⟨hKept, hRuns⟩ := hDormant.visit hNow hReach hApart hVisit hDone hInterval
        refine ⟨.inr ⟨by omega, hKept.trans (congrArg some ?_)⟩, hRuns.trans hNone⟩
        split
        · rename_i hThere
          rcases (Sweeps.swept hRegistry hNow hReach).ahead _ _ (Nat.le_refl _) hThere with
            hStood | hStart
          · have := hDistinct.apart hStood hSlot ⟨rfl, rfl⟩
            omega
          · exact Timer.caught_start hStart
        · rfl

/-- A sweep up to its end makes a suspended timer catch up once, and does not run it. -/
theorem Dormant.catches (hDistinct : s.world.timers.Distinct)
    (hGet : s.world.timers.get? owner name = some t) (hInterval : t.interval ≠ .zero)
    (hw : rules.Sweeps s w) (hEnd : w.session.world.timers.slots.size ≤ w.next) :
    w.session.world.timers.get? owner name = some (t.caught s.world.clock) ∧
      w.runs owner name = 0 := by
  obtain ⟨i, hSlot, hKey⟩ := hDistinct.get?_eq_some_iff.mp hGet
  by_cases hBegan : t.start = s.world.clock
  · rw [Timer.caught_start hBegan]
    exact hDormant.leaves hRegistry hNow hDistinct hGet hInterval hBegan hw
  · obtain ⟨⟨_, hHeld⟩ | ⟨_, hDone⟩, hNone⟩ :=
      hDormant.course hRegistry hNow hDistinct hSlot hKey hInterval hBegan hw
    · have := TimerSet.slot?_isSome_lt hHeld
      omega
    · exact ⟨hDone, hNone⟩

end Dormant

/-- Time goes on while the timer of a key is suspended. Between sweeps anything may happen that does not
concern it, and the clock does not go back; a sweep goes up to its end. -/
inductive Lapses (rules : Rules) (owner : EntityId) (name : String) : Watch → Watch → Prop where
  | meanwhile {s t : Session} {sweeps : List Tally} (hChanges : Leads Session.Change s t)
      (hClock : s.world.clock.nanos ≤ t.world.clock.nanos)
      (hKept : t.world.timers.get? owner name = s.world.timers.get? owner name) :
      Lapses rules owner name ⟨s, sweeps⟩ ⟨t, sweeps⟩
  | sweep {s : Session} {sweeps : List Tally} {w : Sweep}
      (hFits : s.world.clock.nanos < Duration.limit) (hSweep : rules.Sweeps s w)
      (hEnd : w.session.world.timers.slots.size ≤ w.next) (hDormant : rules.Dormant owner name s) :
      Lapses rules owner name ⟨s, sweeps⟩
        ⟨w.session, sweeps ++ [⟨s.world.clock, w.runs owner name⟩]⟩

end Rules

/-- How a suspended timer stands after the sweeps that took place: it caught up in each and did not run,
and it has not got beyond the clock. -/
structure Watch.Suspended (w : Watch) (owner : EntityId) (name : String) (t : Timer) : Prop where
  timer : w.session.world.timers.get? owner name = some (t.later (t.skipped w.sweeps))
  runs : totalRuns w.sweeps = 0
  start : t.start.nanos ≤ w.session.world.clock.nanos
  within : t.skipped w.sweeps ≤ t.passed w.session.world.clock
  /-- Where it stood before the last sweep, and when that took place. -/
  last : ∀ sweeps x, w.sweeps = sweeps ++ [x] →
    t.start.nanos ≤ x.clock.nanos ∧ t.skipped sweeps ≤ t.passed x.clock

namespace Rules

variable {rules : Rules} {owner : EntityId} {name : String} {start : Session} {t : Timer}
  {v w : Watch}

theorem Lapses.changes (hRegistry : rules.registry.OfBuiltins) (h : rules.Lapses owner name v w) :
    Leads Session.Change v.session w.session := by
  cases h with
  | meanwhile hChanges => exact hChanges
  | sweep _ hSweep => exact Sweeps.changes hRegistry hSweep

/-- As time goes on, a suspended timer is moved on by whole intervals only. -/
theorem Lapses.suspended (hRegistry : rules.registry.OfBuiltins) (hInterval : t.interval ≠ .zero)
    (hDistinct : v.session.world.timers.Distinct) (hv : v.Suspended owner name t)
    (h : rules.Lapses owner name v w) : w.Suspended owner name t := by
  cases h with
  | meanwhile _ hClock hKept =>
      refine ⟨hKept.trans hv.timer, hv.runs, Nat.le_trans hv.start hClock, ?_, hv.last⟩
      exact Nat.le_trans hv.within (Nat.div_le_div_right (Nat.sub_le_sub_right hClock _))
  | @sweep s sweeps m hFits hSweep hEnd hDormant =>
      obtain ⟨hTimer, hRuns⟩ :=
        hDormant.catches hRegistry hFits hDistinct hv.timer hInterval hSweep hEnd
      have hWithin := hv.within
      have hMoved := Nat.mod_le (t.passed s.world.clock - t.skipped sweeps) UInt32.size
      have hClock := (Sweeps.swept hRegistry hFits hSweep).clock
      refine ⟨?_, ?_, ?_, ?_, ?_⟩
      · rw [← Timer.caught_later]
        exact hTimer
      · rw [totalRuns_append, hRuns]
        exact hv.runs
      · rw [hClock]
        exact hv.start
      · simp only [Timer.skipped_append, hClock] at hWithin ⊢
        omega
      · intro before x hSplit
        obtain ⟨rfl, hLast⟩ := List.append_inj' hSplit rfl
        cases hLast
        exact ⟨hv.start, hWithin⟩

/-- An idle timer catches up with the clock by whole intervals, so it keeps its phase, and it does not
get beyond the clock. While its owner is outside the active zone each sweep makes it catch up and none
runs it. After a sweep it is not due, nor before the next regular end of an interval since it first began,
exactly if fewer than `2 ^ 32` intervals had passed since the sweep before. -/
theorem idle_timer_catches_up (hRegistry : rules.registry.OfBuiltins)
    (hInterval : t.interval ≠ .zero) :
    (∀ now : Duration, t.start.nanos ≤ now.nanos → now.nanos < Duration.limit →
      ∃ n, t.caughtUp? now = some (t.later n) ∧ (t.later n).start.nanos ≤ now.nanos ∧
        (now.nanos < (t.later n).start.nanos + t.interval.nanos ↔ t.passed now < UInt32.size)) ∧
    ∀ {start : Session} {w : Watch}, rules.Attains start →
      start.world.timers.get? owner name = some t → t.start.nanos ≤ start.world.clock.nanos →
      Leads (rules.Lapses owner name) ⟨start, []⟩ w →
      w.session.world.timers.get? owner name = some (t.later (t.skipped w.sweeps)) ∧
      totalRuns w.sweeps = 0 ∧
      (t.later (t.skipped w.sweeps)).start.nanos ≤ w.session.world.clock.nanos ∧
      ∀ sweeps last, w.sweeps = sweeps ++ [last] →
        let next := (t.later (t.skipped w.sweeps)).start.nanos + t.interval.nanos
        let missed := t.passed last.clock - t.skipped sweeps
        (last.clock.nanos < next ↔ missed < UInt32.size) ∧
        (t.start.nanos + (t.passed last.clock + 1) * t.interval.nanos ≤ next ↔ missed < UInt32.size) := by
  refine ⟨fun now hStart hNow => ⟨_, Timer.caughtUp?_eq hInterval hStart hNow,
    Timer.caught_reaches_iff hInterval hStart⟩, ?_⟩
  intro start w hAttains hTimer hBegan hRun
  obtain ⟨_, hw⟩ : w.session.world.timers.Distinct ∧ w.Suspended owner name t := by
    induction hRun with
    | refl =>
        refine ⟨hAttains.distinct, ?_, rfl, hBegan, Nat.zero_le _, by simp⟩
        rw [hTimer, Timer.skipped, List.foldl_nil, Timer.later_zero]
    | tail _ step ih =>
        exact ⟨Session.distinct_of_leads (step.changes hRegistry) ih.1,
          step.suspended hRegistry hInterval ih.1 ih.2⟩
  refine ⟨hw.timer, hw.runs, Timer.later_start_le hw.start hw.within, ?_⟩
  intro sweeps last hSplit
  obtain ⟨hStart, hWithin⟩ := hw.last sweeps last hSplit
  have hSkipped := congrArg t.skipped hSplit
  rw [Timer.skipped_append] at hSkipped
  have hMoved := Nat.mod_le (t.passed last.clock - t.skipped sweeps) UInt32.size
  have hReaches : t.skipped w.sweeps = t.passed last.clock ↔
      t.passed last.clock - t.skipped sweeps < UInt32.size := by
    rw [← Nat.mod_eq_iff_lt (by decide : UInt32.size ≠ 0)]
    omega
  constructor
  · rw [Timer.lt_later_iff hInterval hStart (by omega)]
    exact hReaches
  · rw [← hReaches, Timer.later, Nat.add_assoc, ← Nat.succ_mul, Nat.add_le_add_iff_left,
      Nat.mul_le_mul_right_iff (Timer.interval_pos hInterval)]
    omega

/-- An idle timer that is due every nanosecond. -/
def hastyTimer : Timer := ⟨"hasty", ⟨0⟩, .ofNormal "npc" "accept", 0, ⟨1⟩, 0, .zero, true⟩

/-- A session in which it was just started for an entity outside the active zone. -/
def outsideSession : Session :=
  (Session.spawn { className := "npc", inZone := false }
    ⟨.ofConfig plain.config, .silent, #[]⟩).2.startTimer hastyTimer

/-- The same session ten seconds later. -/
def outsideLater : Session :=
  outsideSession.onWorld fun w => { w with clock := ⟨10 * Duration.second⟩ }

theorem outsideSession_attained : plain.Attains outsideSession :=
  (Attains.spawn ⟨.silent, #[], .refl⟩ { className := "npc", inZone := false }).startTimer (by decide) rfl

set_option maxRecDepth 100000 in
/-- Ten seconds are more of its intervals than 32 bits hold, so after the sweep it is still due. -/
theorem idle_timer_catches_up_outsideLater :
    hastyTimer.interval ≠ .zero ∧ plain.Attains outsideSession ∧
    outsideSession.world.timers.get? ⟨0⟩ "hasty" = some hastyTimer ∧
    ∃ w, Leads (plain.Lapses ⟨0⟩ "hasty") ⟨outsideSession, []⟩ w ∧
      w.session.world.timers.get? ⟨0⟩ "hasty" = some { hastyTimer with start := ⟨1410065408⟩ } ∧
      ∃ sweeps last, w.sweeps = sweeps ++ [last] ∧
        ¬ last.clock.nanos < (hastyTimer.later (hastyTimer.skipped w.sweeps)).start.nanos + 1 := by
  have hAttains := outsideSession_attained
  have hInterval : hastyTimer.interval ≠ .zero := by decide
  have hTimer : outsideSession.world.timers.get? ⟨0⟩ "hasty" = some hastyTimer := by decide +kernel
  have hNow : outsideLater.world.clock.nanos < Duration.limit := by decide
  have hPasses : plain.Lapses ⟨0⟩ "hasty" ⟨outsideSession, []⟩ ⟨outsideLater, []⟩ :=
    .meanwhile (.tail .refl (.plain fun _ => ⟨⟨rfl, rfl, fun _ => rfl⟩, rfl, rfl⟩)) (by decide) rfl
  have hQuiet : outsideLater.fires? outsideLater.world.clock 0 = none := by decide +kernel
  have hRun : Result.passes (fun _ u => u.world.timers.slots.size = 1 ∧
        (u.world.entities.get? ⟨0⟩).any (fun e => !e.inZone) ∧
        (u.world.timers.get? ⟨0⟩ "hasty").all fun t => t.owner = ⟨0⟩ ∧ t.idle = true)
      (plain.visitTimer 1 outsideLater.world.clock 0 outsideLater) = true := by decide +kernel
  obtain ⟨_, u, hVisit, hResult⟩ := Result.exists_of_passes hRun
  obtain ⟨hSize, hLive, hOwned⟩ := of_decide_eq_true hResult
  have hFirst : plain.Visits outsideLater.world.clock ⟨0, outsideLater, []⟩ ⟨1, u, []⟩ :=
    ⟨by decide +kernel, rfl, by rw [hQuiet]; rfl, 1, hVisit⟩
  have hEnd : u.world.timers.slots.size ≤ 1 := Nat.le_of_eq hSize
  have hDormant : plain.Dormant ⟨0⟩ "hasty" outsideLater := by
    constructor
    · intro w t hw ht
      rcases Sweeps.single hNow hFirst hEnd hw with rfl | rfl
      · cases hTimer.symm.trans ht
        exact ⟨rfl, _, rfl, rfl⟩
      · simp only at ht
        rw [ht] at hOwned
        obtain ⟨hOwner, hIdle⟩ := of_decide_eq_true hOwned
        obtain ⟨e, he, hOutside⟩ := (Option.any_eq_true _ _).mp hLive
        exact ⟨hIdle, e, by rw [hOwner]; exact he, Bool.not_eq_true' _ ▸ hOutside⟩
    · intro w v t hw hv ht
      rcases Sweeps.single hNow hFirst hEnd hw with rfl | rfl
      · cases hQuiet.symm.trans ht
      · exact absurd hv.slot (Nat.not_lt.mpr hEnd)
  have hLapses := (Leads.refl.tail hPasses).tail (.sweep hNow (.tail .refl hFirst) hEnd hDormant)
  obtain ⟨_, hCourse⟩ := @idle_timer_catches_up plain ⟨0⟩ "hasty" hastyTimer
    Registry.builtins_ofBuiltins hInterval
  obtain ⟨hLeft, _, _, hLast⟩ := hCourse hAttains hTimer (Nat.le_refl 0) hLapses
  have hSkipped (x : Tally) (hClock : x.clock = ⟨10 * Duration.second⟩) :
      hastyTimer.skipped ([] ++ [x]) = 1410065408 := by
    rw [Timer.skipped_append, hClock]
    decide
  refine ⟨hInterval, hAttains, hTimer, _, hLapses, ?_, [], _, rfl, ?_⟩
  · rw [hLeft, hSkipped _ rfl]
    rfl
  · have hMissed : ¬ hastyTimer.passed outsideLater.world.clock - hastyTimer.skipped [] < UInt32.size := by
      decide
    exact fun hLt => hMissed ((hLast [] _ rfl).1.mp hLt)

end Rules

end EntityScript
