import EntityScript.Proofs.Fuel
import EntityScript.Proofs.Ground
import EntityScript.Script.Normal
import EntityScript.Tick.Timers

/-! The sweep of the timers. A timer that it fires stood in its slot when the sweep began, or it was
started meanwhile without an interval. A sweep that comes upon none of the latter ends, and it fires no
more timers than there were. -/
namespace EntityScript

namespace Timer

/-- A timer that is started now is not due before its interval is over. -/
theorem interval_of_due {t : Timer} {due now : Duration} (hDue : t.due? = some due)
    (hStart : t.start = now) (hReached : due.nanos ≤ now.nanos) : t.interval = .zero := by
  unfold due? Duration.add? at hDue
  split at hDue
  · cases hDue
    rw [hStart] at hReached
    simp only at hReached
    have hNone : t.interval.nanos = 0 := by omega
    exact congrArg Duration.mk hNone
  · cases hDue

theorem start_le_due {t : Timer} {due : Duration} (hDue : t.due? = some due) :
    t.start.nanos ≤ due.nanos := by
  unfold due? Duration.add? at hDue
  split at hDue
  · cases hDue
    exact Nat.le_add_right _ _
  · cases hDue

/-- A timer that is moved on past a run changes its count and its start only. -/
theorem advanced?_keeps {t moved : Timer} {now : Duration} (h : t.advanced? now = some moved) :
    moved = { t with count := moved.count, start := moved.start } := by
  unfold advanced? at h
  split at h
  · cases h
    rfl
  · obtain ⟨_, _, rfl⟩ := Option.map_eq_some_iff.mp h
    rfl

/-- A timer that catches up changes its start only. -/
theorem caughtUp?_keeps {t moved : Timer} {now : Duration} (h : t.caughtUp? now = some moved) :
    moved = { t with start := moved.start } := by
  unfold caughtUp? at h
  split at h
  · cases h
    rfl
  · obtain ⟨_, _, rfl⟩ := Option.map_eq_some_iff.mp h
    rfl

/-- A timer that was moved on is still the same timer of its owner and runs the same line, and its
interval began by `now`. -/
structure MovedOn (now : Duration) (t moved : Timer) : Prop where
  owner : moved.owner = t.owner
  name : moved.name = t.name
  script : moved.script = t.script
  pos : moved.pos = t.pos
  start : moved.start.nanos ≤ now.nanos

/-- A timer that is due can be moved on past this run. -/
theorem advanced?_of_due {t : Timer} {now due : Duration} (hDue : t.due? = some due)
    (hReached : due.nanos ≤ now.nanos) : ∃ moved, t.advanced? now = some moved ∧ t.MovedOn now moved := by
  unfold advanced?
  split
  · exact ⟨_, rfl, rfl, rfl, rfl, rfl, Nat.le_refl _⟩
  · rw [hDue]
    exact ⟨_, rfl, rfl, rfl, rfl, rfl, hReached⟩

/-- A timer that is due can catch up with the clock, and it does not get beyond it. -/
theorem caughtUp?_of_due {t : Timer} {now due : Duration} (hNow : now.nanos < Duration.limit)
    (hDue : t.due? = some due) (hReached : due.nanos ≤ now.nanos) :
    ∃ moved, t.caughtUp? now = some moved ∧ t.MovedOn now moved := by
  unfold caughtUp?
  split
  · exact ⟨_, rfl, rfl, rfl, rfl, rfl, Nat.le_refl _⟩
  · have hStart := Nat.le_trans (start_le_due hDue) hReached
    have hWhole : t.interval.nanos * ((now.since t.start).nanos / t.interval.nanos % Nat.pow 2 32) ≤
        now.nanos - t.start.nanos :=
      Nat.le_trans (Nat.mul_le_mul_left _ (Nat.mod_le _ _)) (Nat.mul_div_le _ _)
    have hWithin : t.start.nanos +
        t.interval.nanos * ((now.since t.start).nanos / t.interval.nanos % Nat.pow 2 32) ≤ now.nanos := by
      omega
    dsimp only
    unfold Duration.add?
    rw [if_pos (Nat.lt_of_le_of_lt hWithin hNow)]
    exact ⟨_, rfl, rfl, rfl, rfl, rfl, hWithin⟩

end Timer

namespace TimerSet

theorem slot?_isSome_lt {ts : TimerSet} {i : Nat} {t : Timer} (h : ts.slot? i = some t) :
    i < ts.slots.size := by
  refine Nat.lt_of_not_le fun hBeyond => ?_
  rw [slot?, Array.getElem?_eq_none hBeyond] at h
  cases h

/-- There are no more timers than slots that hold one. -/
theorem length_le_size {ts : TimerSet} {is : List Nat} (hOnce : is.Nodup)
    (hHeld : ∀ i ∈ is, (ts.slot? i).isSome) : is.length ≤ ts.size := by
  have hSlots : (List.range ts.slots.size).map ts.slot? = ts.slots.toList := by
    refine List.ext_getElem (by simp) fun i _ _ => ?_
    simp only [List.getElem_map, List.getElem_range, slot?, Array.getElem_toList]
    rw [Array.getElem?_eq_getElem, Option.join_some]
  have hWithin : is ⊆ (List.range ts.slots.size).filter fun i => (ts.slot? i).isSome := by
    intro i hi
    obtain ⟨t, ht⟩ := Option.isSome_iff_exists.mp (hHeld i hi)
    exact List.mem_filter.mpr ⟨List.mem_range.mpr (slot?_isSome_lt ht), hHeld i hi⟩
  calc is.length ≤ ((List.range ts.slots.size).filter fun i => (ts.slot? i).isSome).length :=
        hOnce.length_le_of_subset hWithin
    _ = ((List.range ts.slots.size).map ts.slot?).countP Option.isSome := by
        rw [List.countP_map, List.countP_eq_length_filter]
        rfl
    _ = ts.size := by rw [hSlots, size, Array.countP_toList]

end TimerSet

namespace Session

variable {s : Session} {now : Duration} {i : Nat} {t : Timer}

/-- The timer whose line a visit of a slot runs: it is due, and its owner is there, in the active zone
if the timer is idle. -/
def fires? (s : Session) (now : Duration) (i : Nat) : Option Timer :=
  (s.world.timers.slot? i).filter fun t =>
    t.due?.any (fun due => decide (due.nanos ≤ now.nanos)) &&
      (s.world.entities.get? t.owner).any fun owner => !(t.idle && !owner.inZone)

/-- Changes what a slot of the timers holds. -/
def setTimer (s : Session) (i : Nat) (slot : Option Timer) : Session :=
  s.onWorld fun w => { w with timers := w.timers.setSlot i slot }

/-- The session in which the line of a timer runs that a visit fires. -/
def firing (s : Session) (now : Duration) (i : Nat) (t : Timer) : Session :=
  (s.setTimer i (if t.count = 1 then none else t.advanced? now)).write .trace .timer
    ("fire " ++ t.name ++ " on " ++ t.owner.shown)

theorem slot?_of_fires? (h : s.fires? now i = some t) : s.world.timers.slot? i = some t :=
  (Option.filter_eq_some_iff.mp h).1

theorem due_of_fires? (h : s.fires? now i = some t) :
    ∃ due, t.due? = some due ∧ due.nanos ≤ now.nanos := by
  have hMeets := (Option.filter_eq_some_iff.mp h).2
  simp only [Bool.and_eq_true, Option.any_eq_true_iff_get] at hMeets
  obtain ⟨⟨hSome, hReached⟩, -⟩ := hMeets
  exact ⟨_, (Option.some_get hSome).symm, of_decide_eq_true hReached⟩

/-- A visit that fires nothing leaves the session as it is, or it empties the slot or moves on the
timer there. -/
def Passed (now : Duration) (i : Nat) (s u : Session) : Prop :=
  u = s ∨ ∃ slot, u = s.setTimer i slot ∧
    ∀ moved, slot = some moved → ∃ t, s.world.timers.slot? i = some t ∧ t.MovedOn now moved

theorem setTimer_slot?_ne {j : Nat} (h : j ≠ i) (slot : Option Timer) (s : Session) :
    (s.setTimer i slot).world.timers.slot? j = s.world.timers.slot? j :=
  TimerSet.slot?_setSlot_ne h.symm

theorem setTimer_size (i : Nat) (slot : Option Timer) (s : Session) :
    (s.setTimer i slot).world.timers.slots.size = s.world.timers.slots.size := by
  simp [setTimer, onWorld, TimerSet.setSlot]

end Session

/-- A sweep between two visits: the slot that comes next, and the timers fired so far, each with its
slot. -/
structure Sweep where
  next : Nat
  session : Session
  fired : List (Nat × Timer)

namespace Rules

open EntityScript.Action (Below)

variable {rules : Rules} {s : Session} {now : Duration} {i : Nat} {t : Timer}

/-- The cases of a visit. -/
theorem visitTimer_apply (rules : Rules) (fuel : Nat) (now : Duration) (i : Nat) (s : Session) :
    rules.visitTimer fuel now i s =
      match s.world.timers.slot? i with
      | none => .ok () s
      | some t =>
        match t.due? with
        | none => .error (.fault .timeOverflow) s
        | some due =>
          if due.nanos ≤ now.nanos then
            match s.world.entities.get? t.owner with
            | none => .ok () (s.setTimer i none)
            | some owner =>
              if t.idle && !owner.inZone then
                match t.caughtUp? now with
                | none => .error (.fault .timeOverflow) s
                | some moved => .ok () (s.setTimer i moved)
              else rules.fire fuel now i t s
          else .ok () s := by
  rw [visitTimer, Action.bind_apply]
  change (match s.world.timers.slot? i with
    | none => return
    | some t => _ : Action Unit) s = _
  cases s.world.timers.slot? i with
  | none => rfl
  | some t =>
      dsimp only
      rw [Action.bind_apply]
      cases t.due? with
      | none => rfl
      | some due =>
          change (if due.nanos ≤ now.nanos then _ else _ : Action Unit) s = _
          dsimp only
          split
          · cases s.world.entities.get? t.owner with
            | none => rfl
            | some owner =>
                dsimp only
                split
                · rw [Action.bind_apply]
                  cases t.caughtUp? now with
                  | none => rfl
                  | some moved => rfl
                · rfl
          · rfl

/-- A visit of a slot without a timer to fire moves on, unless the next run of its timer does not
fit. -/
theorem visitTimer_passes (rules : Rules) (hNow : now.nanos < Duration.limit)
    (h : s.fires? now i = none) :
    (∃ u, s.Passed now i u ∧ ∀ fuel, rules.visitTimer fuel now i s = .ok () u) ∨
      ∃ t, s.world.timers.slot? i = some t ∧ t.due? = none ∧
        ∀ fuel, rules.visitTimer fuel now i s = .error (.fault .timeOverflow) s := by
  simp only [visitTimer_apply]
  unfold Session.fires? at h
  cases hSlot : s.world.timers.slot? i with
  | none => exact .inl ⟨s, .inl rfl, fun _ => rfl⟩
  | some t =>
      rw [hSlot] at h
      cases hDue : t.due? with
      | none => exact .inr ⟨t, rfl, hDue, fun _ => by simp only [hDue]⟩
      | some due =>
          refine .inl ?_
          by_cases hReached : due.nanos ≤ now.nanos
          · simp only [hDue, if_pos hReached]
            cases hOwner : s.world.entities.get? t.owner with
            | none => exact ⟨_, .inr ⟨none, rfl, nofun⟩, fun _ => rfl⟩
            | some owner =>
                have hIdle : (t.idle && !owner.inZone) = true := by
                  simpa [Option.filter, hDue, hReached, hOwner] using h
                obtain ⟨moved, hCaught, hMoved⟩ := Timer.caughtUp?_of_due hNow hDue hReached
                simp only [if_pos hIdle, hCaught]
                refine ⟨_, .inr ⟨some moved, rfl, fun x hx => ?_⟩, fun _ => rfl⟩
                cases hx
                exact ⟨t, hSlot, hMoved⟩
          · simp only [hDue, if_neg hReached]
            exact ⟨s, .inl rfl, fun _ => rfl⟩

/-- A visit that fires a timer moves it on and runs its line. -/
theorem visitTimer_fires (h : s.fires? now i = some t) (fuel : Nat) :
    rules.visitTimer fuel now i s =
      (discard <| rules.runLine fuel t.script t.owner t.pos (some t.name)) (s.firing now i t) := by
  obtain ⟨hSlot, hMeets⟩ := Option.filter_eq_some_iff.mp h
  obtain ⟨due, hDue, hReached⟩ := Session.due_of_fires? h
  rw [visitTimer_apply, hSlot]
  cases hOwner : s.world.entities.get? t.owner with
  | none => simp [hOwner] at hMeets
  | some owner =>
      rw [hOwner, Bool.and_eq_true] at hMeets
      have hActive : (t.idle && !owner.inZone) = false := Bool.not_eq_true' _ ▸ hMeets.2
      simp only [hDue, hOwner, hActive, if_pos hReached, Bool.false_eq_true, if_false]
      unfold fire Session.firing
      by_cases hLast : t.count = 1
      · simp only [if_pos hLast]
        rfl
      · obtain ⟨moved, hAdvanced, _⟩ := Timer.advanced?_of_due hDue hReached
        simp only [if_neg hLast, hAdvanced]
        rfl

/-- A dispatch of a line leaves the clock alone, and it puts into the slots only what it starts. -/
theorem runLine_timers (hRegistry : rules.registry.OfBuiltins) {fuel : Nat} {script : Script}
    {entity : EntityId} {pos : Nat} {timer : Option String} {v : Verdict} {u : Session}
    (h : rules.runLine fuel script entity pos timer s = .ok v u) :
    Session.Evolves (fun t => t.start = s.world.clock) s u := by
  -- Every place is on this ground, so it tells nothing but when timers are started.
  let ground : Script → Nat → Prop := fun _ _ => True
  have hTerrain : Terrain ground := ⟨fun _ _ => True.intro, fun _ _ => True.intro⟩
  have hGrounded : s.Grounded ground :=
    ⟨fun _ _ => ⟨fun _ _ _ => True.intro, fun _ _ _ => True.intro⟩, fun _ _ _ => True.intro⟩
  have hKeeps : Action.Keeps ground s (fun _ => True)
      (rules.runLine fuel script entity pos timer) :=
    runLine_keeps hTerrain hRegistry hGrounded fuel True.intro entity timer
  have hLine := hKeeps s (.refl s)
  rw [h] at hLine
  exact hLine.1.mono fun _ ht => ht.1

/-- A visit leaves the clock alone, and besides its own slot it puts into the slots only timers that
are started meanwhile. -/
theorem visitTimer_timers (hRegistry : rules.registry.OfBuiltins)
    (hNow : now.nanos < Duration.limit) {fuel : Nat} {u : Session}
    (h : rules.visitTimer fuel now i s = .ok () u) :
    u.world.clock = s.world.clock ∧ ∀ j ≠ i, ∀ t, u.world.timers.slot? j = some t →
      s.world.timers.slot? j = some t ∨ t.start = s.world.clock := by
  cases hFires : s.fires? now i with
  | none =>
      obtain ⟨u', hPassed, hVisit⟩ | ⟨_, _, _, hVisit⟩ := visitTimer_passes rules hNow hFires
      · cases (hVisit fuel).symm.trans h
        obtain rfl | ⟨slot, rfl, _⟩ := hPassed
        · exact ⟨rfl, fun _ _ _ ht => .inl ht⟩
        · exact ⟨rfl, fun j hj t ht => .inl ((Session.setTimer_slot?_ne hj slot s).symm.trans ht)⟩
      · cases (hVisit fuel).symm.trans h
  | some t =>
      rw [visitTimer_fires hFires] at h
      obtain ⟨v, hLine⟩ := Action.discard_ok.mp h
      have hEvolves := runLine_timers hRegistry hLine
      refine ⟨hEvolves.clock, fun j hj x hx => (hEvolves.timers j x hx).imp_left fun hOld => ?_⟩
      exact (TimerSet.slot?_setSlot_ne hj.symm).symm.trans hOld

/-- With more fuel a visit comes to the same. -/
theorem visitTimer_below (hNow : now.nanos < Duration.limit) {fuel fuel' : Nat} (hLe : fuel ≤ fuel') :
    Below (rules.visitTimer fuel now i) (rules.visitTimer fuel' now i) := by
  intro s
  cases hFires : s.fires? now i with
  | none =>
      obtain ⟨_, _, hVisit⟩ | ⟨_, _, _, hVisit⟩ := visitTimer_passes rules hNow hFires
      · exact .inl ((hVisit fuel).trans (hVisit fuel').symm)
      · exact .inl ((hVisit fuel).trans (hVisit fuel').symm)
  | some t =>
      rw [visitTimer_fires hFires, visitTimer_fires hFires]
      exact (runLine_below hLe _ _ _ _).discard _

/-- A sweep visits the next slot, with as much fuel as that takes. -/
structure Visits (rules : Rules) (now : Duration) (w v : Sweep) : Prop where
  slot : w.next < w.session.world.timers.slots.size
  next : v.next = w.next + 1
  fired : v.fired = w.fired ++ ((w.session.fires? now w.next).map (Prod.mk w.next)).toList
  session : ∃ fuel, rules.visitTimer fuel now w.next w.session = .ok () v.session

/-- A sweep that began in a session comes to a point. -/
def Sweeps (rules : Rules) (s : Session) (w : Sweep) : Prop :=
  Leads (rules.Visits s.world.clock) ⟨0, s, []⟩ w

variable {w v : Sweep}

theorem Visits.unique (hNow : now.nanos < Duration.limit) :
    ∀ w v v', rules.Visits now w v → rules.Visits now w v' → v = v' := by
  rintro w ⟨n, u, fired⟩ ⟨n', u', fired'⟩ ⟨_, hNext, hFired, fuel, hVisit⟩
    ⟨_, hNext', hFired', fuel', hVisit'⟩
  have hFirst := (visitTimer_below hNow (Nat.le_max_left fuel fuel')).ok hVisit
  have hSecond := (visitTimer_below hNow (Nat.le_max_right fuel fuel')).ok hVisit'
  cases hFirst.symm.trans hSecond
  cases hNext.trans hNext'.symm
  cases hFired.trans hFired'.symm
  rfl

/-- What a sweep knows of the session that it began in. -/
structure Swept (s : Session) (w : Sweep) : Prop where
  clock : w.session.world.clock = s.world.clock
  /-- The slots ahead hold what they held, or timers that were started meanwhile. -/
  ahead : ∀ j t, w.next ≤ j → w.session.world.timers.slot? j = some t →
    s.world.timers.slot? j = some t ∨ t.start = s.world.clock
  behind : ∀ f ∈ w.fired, f.1 < w.next
  once : (w.fired.map Prod.fst).Nodup

theorem Visits.fired_cases (h : rules.Visits now w v) :
    (w.session.fires? now w.next = none ∧ v.fired = w.fired) ∨
      ∃ t, w.session.fires? now w.next = some t ∧ v.fired = w.fired ++ [(w.next, t)] := by
  have hFired := h.fired
  cases hFires : w.session.fires? now w.next with
  | none => exact .inl ⟨rfl, by simpa [hFires] using hFired⟩
  | some t => exact .inr ⟨t, rfl, by simpa [hFires] using hFired⟩

/-- A timer that is fired next stood in its slot when the sweep began, or it has no interval. -/
theorem Swept.stood (hw : Swept s w) (h : w.session.fires? s.world.clock w.next = some t) :
    s.world.timers.slot? w.next = some t ∨ t.interval = .zero := by
  rcases hw.ahead w.next t (Nat.le_refl _) (Session.slot?_of_fires? h) with hStood | hStart
  · exact .inl hStood
  · obtain ⟨due, hDue, hReached⟩ := Session.due_of_fires? h
    exact .inr (Timer.interval_of_due hDue hStart hReached)

theorem Swept.visits (hRegistry : rules.registry.OfBuiltins)
    (hNow : s.world.clock.nanos < Duration.limit) (hw : Swept s w)
    (h : rules.Visits s.world.clock w v) : Swept s v := by
  obtain ⟨fuel, hVisit⟩ := h.session
  have hNext := h.next
  obtain ⟨hClock, hSlots⟩ := visitTimer_timers hRegistry hNow hVisit
  rw [hw.clock] at hClock hSlots
  have hAhead : ∀ j t, v.next ≤ j → v.session.world.timers.slot? j = some t →
      s.world.timers.slot? j = some t ∨ t.start = s.world.clock := by
    intro j t hj ht
    rcases hSlots j (by omega) t ht with hOld | hStarted
    · exact hw.ahead j t (by omega) hOld
    · exact .inr hStarted
  rcases h.fired_cases with ⟨_, hFired⟩ | ⟨t, hFires, hFired⟩
  · refine ⟨hClock, hAhead, ?_, hFired ▸ hw.once⟩
    rw [hFired, hNext]
    exact fun f hf => Nat.lt_succ_of_lt (hw.behind f hf)
  · refine ⟨hClock, hAhead, ?_, ?_⟩
    · rw [hFired, hNext]
      exact List.forall_mem_append.mpr ⟨fun f hf => Nat.lt_succ_of_lt (hw.behind f hf),
        List.forall_mem_singleton.mpr (Nat.lt_succ_self _)⟩
    · rw [hFired, List.map_append, List.nodup_append]
      refine ⟨hw.once, List.pairwise_singleton _ _, ?_⟩
      rintro a ha b hb rfl
      obtain ⟨f, hf, rfl⟩ := List.mem_map.mp ha
      exact Nat.ne_of_lt (hw.behind f hf) (List.mem_singleton.mp hb)

theorem Sweeps.swept (hRegistry : rules.registry.OfBuiltins)
    (hNow : s.world.clock.nanos < Duration.limit) (h : rules.Sweeps s w) : Swept s w := by
  induction h with
  | refl => exact ⟨rfl, fun _ _ _ ht => .inl ht, nofun, List.nodup_nil⟩
  | tail _ hVisit ih => exact ih.visits hRegistry hNow hVisit

/-- Each timer that a sweep has fired was due when the sweep came to its slot. -/
theorem Sweeps.fired (h : rules.Sweeps s w) : ∀ f ∈ w.fired, ∃ m, rules.Sweeps s m ∧
    m.next = f.1 ∧ m.session.fires? s.world.clock m.next = some f.2 := by
  induction h with
  | refl => exact nofun
  | @tail m v hReach hVisit ih =>
      rcases hVisit.fired_cases with ⟨_, hFired⟩ | ⟨t, hFires, hFired⟩
      · rw [hFired]
        exact ih
      · rw [hFired]
        exact List.forall_mem_append.mpr ⟨ih, List.forall_mem_singleton.mpr ⟨m, hReach, rfl, hFires⟩⟩

theorem fired_subset (h : Leads (rules.Visits now) w v) : w.fired ⊆ v.fired := by
  induction h with
  | refl => exact List.Subset.refl _
  | tail _ hVisit ih =>
      rw [hVisit.fired]
      exact List.Subset.trans ih (List.subset_append_left _ _)

/-- The next run of a timer fits if a visit gets past it. -/
theorem Visits.fits (h : rules.Visits now w v)
    (hHeld : w.session.world.timers.slot? w.next = some t) : t.due?.isSome := by
  obtain ⟨fuel, hVisit⟩ := h.session
  rw [visitTimer_apply, hHeld] at hVisit
  cases hDue : t.due? with
  | none => simp [hDue] at hVisit
  | some due => rfl

theorem sweepFrom_succ (rules : Rules) (fuel : Nat) (now : Duration) (steps i : Nat) (s : Session) :
    rules.sweepFrom fuel now (steps + 1) i s =
      if i < s.world.timers.slots.size then
        (rules.visitTimer fuel now i >>= fun _ => rules.sweepFrom fuel now steps (i + 1)) s
      else .ok () s := by
  rw [sweepFrom, Action.bind_apply]
  change (if i < s.world.timers.slots.size then _ else _ : Action Unit) s = _
  split
  · rfl
  · rfl

/-- A sweep that comes to the end of the slots ends there. -/
theorem sweepFrom_visits (hNow : now.nanos < Duration.limit)
    (h : Leads (rules.Visits now) w v)
    (hEnd : v.session.world.timers.slots.size ≤ v.next) :
    ∃ n, ∀ fuel steps, n ≤ fuel → n ≤ steps →
      rules.sweepFrom fuel now steps w.next w.session = .ok () v.session := by
  induction h using Leads.head_induction with
  | refl =>
      refine ⟨1, fun fuel steps _ hSteps => ?_⟩
      obtain ⟨steps, rfl⟩ := Nat.exists_eq_add_of_le' hSteps
      rw [sweepFrom_succ, if_neg (Nat.not_lt.mpr hEnd)]
  | @head w m hVisit _ ih =>
      obtain ⟨n, hRest⟩ := ih
      obtain ⟨fuel₀, hFirst⟩ := hVisit.session
      refine ⟨max fuel₀ n + 1, fun fuel steps hFuel hSteps => ?_⟩
      obtain ⟨steps, rfl⟩ := Nat.exists_eq_add_of_le' (Nat.le_of_add_left_le hSteps)
      have hFirst' := (visitTimer_below hNow (by omega : fuel₀ ≤ fuel)).ok hFirst
      rw [sweepFrom_succ, if_pos hVisit.slot, Action.bind_apply, hFirst', ← hVisit.next]
      exact hRest fuel steps (by omega) (by omega)

/-- A sweep that ends has come to the end of the slots. -/
theorem visits_of_sweepFrom {fuel steps : Nat} {t : Session}
    (h : rules.sweepFrom fuel now steps w.next w.session = .ok () t) :
    ∃ v, Leads (rules.Visits now) w v ∧ v.session.world.timers.slots.size ≤ v.next ∧
      v.session = t := by
  induction steps generalizing w with
  | zero => cases h
  | succ steps ih =>
      rw [sweepFrom_succ] at h
      split at h
      · rename_i hSlot
        rw [Action.bind_apply] at h
        cases hVisit : rules.visitTimer fuel now w.next w.session with
        | error halt u =>
            rw [hVisit] at h
            cases h
        | ok _ u =>
            rw [hVisit] at h
            obtain ⟨v, hRest, hEnd⟩ := ih (w := ⟨w.next + 1, u,
              w.fired ++ ((w.session.fires? now w.next).map (Prod.mk w.next)).toList⟩) h
            exact ⟨v, hRest.head ⟨hSlot, rfl, rfl, fuel, hVisit⟩, hEnd⟩
      · rename_i hEnd
        cases h
        exact ⟨w, .refl, Nat.le_of_not_lt hEnd, rfl⟩

/-- What a sweep leaves is what its visits lead to, up to the end of the slots. -/
theorem sweep_ok_iff (hNow : s.world.clock.nanos < Duration.limit) {t : Session} :
    (∃ fuel, rules.sweep fuel s = .ok () t) ↔
      ∃ w, rules.Sweeps s w ∧ w.session.world.timers.slots.size ≤ w.next ∧ w.session = t := by
  constructor
  · rintro ⟨fuel, hSweep⟩
    exact visits_of_sweepFrom (w := ⟨0, s, []⟩) hSweep
  · rintro ⟨w, hw, hEnd, rfl⟩
    obtain ⟨n, hSweep⟩ := sweepFrom_visits hNow hw hEnd
    exact ⟨n, hSweep n n (Nat.le_refl n) (Nat.le_refl n)⟩

/-- A visit that fires nothing adds no slot. -/
theorem Visits.size (hNow : now.nanos < Duration.limit) (h : rules.Visits now w v)
    (hFires : w.session.fires? now w.next = none) :
    v.session.world.timers.slots.size = w.session.world.timers.slots.size := by
  obtain ⟨fuel, hVisit⟩ := h.session
  obtain ⟨u, hPassed, hPass⟩ | ⟨_, _, _, hFault⟩ := visitTimer_passes rules hNow hFires
  · cases (hPass fuel).symm.trans hVisit
    obtain hSame | ⟨slot, hSet, _⟩ := hPassed
    · rw [hSame]
    · rw [hSet, Session.setTimer_size]
  · cases (hFault fuel).symm.trans hVisit

/-- A sweep that is not at the end of the slots goes on if the next timer's run fits and its line
returns. -/
theorem exists_visits (rules : Rules) (hNow : now.nanos < Duration.limit)
    (hSlot : w.next < w.session.world.timers.slots.size)
    (hFits : ∀ t, w.session.world.timers.slot? w.next = some t → t.due?.isSome)
    (hLine : ∀ t, w.session.fires? now w.next = some t → ∃ fuel verdict u,
      rules.runLine fuel t.script t.owner t.pos (some t.name) (w.session.firing now w.next t) =
        .ok verdict u) : ∃ v, rules.Visits now w v := by
  obtain ⟨fuel, u, hVisit⟩ : ∃ fuel u, rules.visitTimer fuel now w.next w.session = .ok () u := by
    cases hFires : w.session.fires? now w.next with
    | none =>
        obtain ⟨u, _, hPass⟩ | ⟨t, hHeld, hNone, _⟩ := visitTimer_passes rules hNow hFires
        · exact ⟨0, u, hPass 0⟩
        · have hSome := hFits t hHeld
          simp [hNone] at hSome
    | some t =>
        obtain ⟨fuel, verdict, u, hRun⟩ := hLine t hFires
        exact ⟨fuel, u, (visitTimer_fires hFires fuel).trans (Action.discard_ok.mpr ⟨_, hRun⟩)⟩
  exact ⟨⟨_, u, _⟩, hSlot, rfl, rfl, fuel, hVisit⟩

/-- Behind the slots that there were, a sweep that fires only what stood in its slot takes as many
visits as there are slots left; before that, each visit brings it nearer. -/
theorem Sweeps.ends (hNow : s.world.clock.nanos < Duration.limit)
    (hVisits : ∀ w, rules.Sweeps s w → w.next < w.session.world.timers.slots.size →
      ∃ v, rules.Visits s.world.clock w v)
    (hStood : ∀ w t, rules.Sweeps s w → w.session.fires? s.world.clock w.next = some t →
      s.world.timers.slot? w.next = some t) :
    ∃ v, rules.Sweeps s v ∧ v.session.world.timers.slots.size ≤ v.next := by
  -- Past the slots that there were nothing fires, so no slot is added and those left run out.
  have hTail : ∀ left w, rules.Sweeps s w → s.world.timers.slots.size ≤ w.next →
      w.session.world.timers.slots.size - w.next = left →
      ∃ v, rules.Sweeps s v ∧ v.session.world.timers.slots.size ≤ v.next := by
    intro left
    induction left with
    | zero => exact fun w hw _ hLeft => ⟨w, hw, by omega⟩
    | succ left ih =>
        intro w hw hBeyond hLeft
        obtain ⟨v, hVisit⟩ := hVisits w hw (by omega)
        have hFires : w.session.fires? s.world.clock w.next = none := by
          refine Option.eq_none_iff_forall_ne_some.mpr fun t ht => ?_
          have := TimerSet.slot?_isSome_lt (hStood w t hw ht)
          omega
        have hSize := hVisit.size hNow hFires
        have hNext := hVisit.next
        exact ih v (hw.tail hVisit) (by omega) (by omega)
  -- Up to there fired lines may add slots, but not to the ones that there were.
  have hHead : ∀ left w, rules.Sweeps s w → s.world.timers.slots.size - w.next = left →
      ∃ v, rules.Sweeps s v ∧ v.session.world.timers.slots.size ≤ v.next := by
    intro left
    induction left with
    | zero => exact fun w hw hLeft => hTail _ w hw (by omega) rfl
    | succ left ih =>
        intro w hw hLeft
        by_cases hSlot : w.next < w.session.world.timers.slots.size
        · obtain ⟨v, hVisit⟩ := hVisits w hw hSlot
          have hNext := hVisit.next
          exact ih v (hw.tail hVisit) (by omega)
        · exact ⟨w, hw, Nat.le_of_not_lt hSlot⟩
  exact hHead _ ⟨0, s, []⟩ .refl rfl

/-- A sweep in which each fired line returns ends, and it has fired only timers that stood in their
slots when it began and no more of them than there were, exactly if it comes upon no timer whose next
run does not fit, and upon no due timer without an interval that was started meanwhile. -/
theorem sweep_fires_iff (hRegistry : rules.registry.OfBuiltins)
    (hNow : s.world.clock.nanos < Duration.limit)
    (hLines : ∀ w t, rules.Sweeps s w → w.session.fires? s.world.clock w.next = some t →
      ∃ fuel verdict u, rules.runLine fuel t.script t.owner t.pos (some t.name)
        (w.session.firing s.world.clock w.next t) = .ok verdict u) :
    (∃ w, rules.Sweeps s w ∧ w.session.world.timers.slots.size ≤ w.next ∧
        (∃ n, ∀ fuel, n ≤ fuel → rules.sweep fuel s = .ok () w.session) ∧
        (∀ f ∈ w.fired, s.world.timers.slot? f.1 = some f.2) ∧
        w.fired.length ≤ s.world.timers.size) ↔
      ∀ w t, rules.Sweeps s w → w.session.world.timers.slot? w.next = some t →
        t.due?.isSome ∧ (w.session.fires? s.world.clock w.next = some t → t.interval = .zero →
          s.world.timers.slot? w.next = some t) := by
  constructor
  · rintro ⟨last, hLast, hEnd, _, hFired, _⟩ w t hw hHeld
    have hSlot := TimerSet.slot?_isSome_lt hHeld
    -- Visits are deterministic, so the sweep to the end leads through every point it can come to.
    obtain ⟨v, hVisit, hRest⟩ : ∃ v, rules.Visits s.world.clock w v ∧
        Leads (rules.Visits s.world.clock) v last := by
      rcases hw.comparable (Visits.unique hNow) hLast with
        hOn | hBack
      · rcases hOn.cases_head with rfl | hStep
        · omega
        · exact hStep
      · rcases hBack.cases_head with rfl | ⟨v, hVisit, _⟩
        · omega
        · have := hVisit.slot
          omega
    refine ⟨hVisit.fits hHeld, fun hFires _ => hFired (w.next, t) (fired_subset hRest ?_)⟩
    rw [hVisit.fired, hFires]
    exact List.mem_append_right _ (List.mem_singleton_self _)
  · intro hMeets
    have hStood : ∀ w t, rules.Sweeps s w → w.session.fires? s.world.clock w.next = some t →
        s.world.timers.slot? w.next = some t := by
      intro w t hw hFires
      rcases (hw.swept hRegistry hNow).stood hFires with hOld | hNone
      · exact hOld
      · exact (hMeets w t hw (Session.slot?_of_fires? hFires)).2 hFires hNone
    obtain ⟨w, hw, hEnd⟩ := Sweeps.ends hNow (fun w hw hSlot =>
      exists_visits rules hNow hSlot (fun t ht => (hMeets w t hw ht).1) fun t => hLines w t hw) hStood
    obtain ⟨n, hSweep⟩ := sweepFrom_visits hNow hw hEnd
    have hSwept := hw.swept hRegistry hNow
    have hFired : ∀ f ∈ w.fired, s.world.timers.slot? f.1 = some f.2 := by
      intro f hf
      obtain ⟨m, hm, hNext, hFires⟩ := hw.fired f hf
      exact hNext ▸ hStood m f.2 hm hFires
    refine ⟨w, hw, hEnd, ⟨n, fun fuel hFuel => hSweep fuel fuel hFuel hFuel⟩, hFired, ?_⟩
    rw [← List.length_map Prod.fst]
    refine TimerSet.length_le_size hSwept.once fun i hi => ?_
    obtain ⟨f, hf, rfl⟩ := List.mem_map.mp hi
    exact Option.isSome_iff_exists.mpr ⟨_, hFired f hf⟩

/-- A sweep that is at its end after one visit comes to no other points. -/
theorem Sweeps.single {s : Session} {v : Sweep} (hNow : s.world.clock.nanos < Duration.limit)
    (hFirst : rules.Visits s.world.clock ⟨0, s, []⟩ v)
    (hEnd : v.session.world.timers.slots.size ≤ v.next) {m : Sweep} (h : rules.Sweeps s m) :
    m = ⟨0, s, []⟩ ∨ m = v := by
  rcases h.cases_head with rfl | ⟨u, hStep, hRest⟩
  · exact .inl rfl
  · cases Visits.unique hNow _ _ _ hStep hFirst
    rcases hRest.cases_head with rfl | ⟨_, hBeyond, _⟩
    · exact .inr rfl
    · exact absurd hBeyond.slot (Nat.not_lt.mpr hEnd)

/-- A timer that is due after a second, and whose line ends at once. -/
def secondTimer : Timer :=
  ⟨"second", ⟨0⟩, .ofNormal "npc" "accept", 0, ⟨Duration.second⟩, 2, .zero, false⟩

/-- A session with that timer, a second after it began. -/
def secondSession : Session :=
  let s := (Session.spawn { className := "npc" } ⟨.ofConfig plain.config, .silent, #[]⟩).2
  s.onWorld fun w => { w with timers := ⟨#[some secondTimer]⟩, clock := ⟨Duration.second⟩ }

set_option maxRecDepth 100000 in
/-- Its sweep fires the timer and ends. -/
theorem sweep_fires_secondTimer :
    secondSession.fires? secondSession.world.clock 0 = some secondTimer ∧
      ∃ w, plain.Sweeps secondSession w ∧
        (∃ n, ∀ fuel, n ≤ fuel → plain.sweep fuel secondSession = .ok () w.session) ∧
        w.fired.length ≤ 1 := by
  have hNow : secondSession.world.clock.nanos < Duration.limit := by decide
  have hFires : secondSession.fires? secondSession.world.clock 0 = some secondTimer := by
    decide +kernel
  have hRun : Result.passes (fun _ u => u.world.timers.slots.size = 1)
      (plain.visitTimer 1 secondSession.world.clock 0 secondSession) = true := by decide +kernel
  obtain ⟨_, u, hVisit, hPasses⟩ := Result.exists_of_passes hRun
  have hEnd : u.world.timers.slots.size ≤ 1 := Nat.le_of_eq (of_decide_eq_true hPasses)
  have hFirst : plain.Visits secondSession.world.clock ⟨0, secondSession, []⟩
      ⟨1, u, [(0, secondTimer)]⟩ := ⟨by decide, rfl, by rw [hFires]; rfl, 1, hVisit⟩
  have hHeld : ∀ w t, plain.Sweeps secondSession w →
      w.session.world.timers.slot? w.next = some t → w = ⟨0, secondSession, []⟩ := by
    intro w t hw ht
    rcases Sweeps.single hNow hFirst hEnd hw with rfl | rfl
    · rfl
    · exact absurd (TimerSet.slot?_isSome_lt ht) (Nat.not_lt.mpr hEnd)
  obtain ⟨verdict, hLine⟩ := Action.discard_ok.mp ((visitTimer_fires hFires 1).symm.trans hVisit)
  have hIff := @sweep_fires_iff plain secondSession Registry.builtins_ofBuiltins hNow fun w t hw ht => by
    cases hHeld w t hw (Session.slot?_of_fires? ht)
    cases hFires.symm.trans ht
    exact ⟨1, verdict, u, hLine⟩
  obtain ⟨w, hw, _, hEnds, _, hLength⟩ := hIff.mpr fun w t hw ht => by
    cases hHeld w t hw ht
    cases (Session.slot?_of_fires? hFires).symm.trans ht
    exact ⟨by decide, fun _ _ => ht⟩
  exact ⟨hFires, w, hw, hEnds, hLength⟩

end Rules

end EntityScript
