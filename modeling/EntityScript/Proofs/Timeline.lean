import EntityScript.Proofs.Runs
import EntityScript.Scene.Running
import Mathlib.Data.List.Count

/-! The timeline of a scene. A run plays its moments one after another: the deliveries of each tick, the
ticks between them, and the deliveries of the tick that it stops at. The next run begins with the
deliveries of that tick, so two runs play them twice where one long run plays them once. -/
namespace EntityScript.Scene

/-- What a running scene does next. -/
inductive Moment where
  /-- An event is delivered or queued. -/
  | delivery (e : EventDefinition)
  /-- Time passes. -/
  | passing
  deriving DecidableEq

/-- The deliveries before a tick. -/
def deliveries (events : List EventDefinition) (tick : Nat) : List Moment :=
  (events.filter (·.tick = tick)).map .delivery

/-- The moments of a run of a number of ticks, from a tick on. -/
def moments (events : List EventDefinition) : Nat → Nat → List Moment
  | 0, tick => deliveries events tick
  | n + 1, tick => deliveries events tick ++ .passing :: moments events n (tick + 1)

/-- What happens at a moment. -/
def Moment.perform (rules : Rules) (fuel : Nat) (dt : Duration) : Moment → Action Unit
  | .delivery e => deliverEvent rules fuel e.tick e
  | .passing => rules.tick fuel dt

section moments

variable {events : List EventDefinition}

theorem moments_succ (n tick : Nat) :
    moments events (n + 1) tick = deliveries events tick ++ .passing :: moments events n (tick + 1) :=
  rfl

/-- A run stops behind the deliveries of its last tick, and a longer one goes on from there. -/
theorem moments_last (events : List EventDefinition) (n tick : Nat) :
    ∃ before, moments events n tick = before ++ deliveries events (tick + n) ∧
      ∀ m, moments events (n + m) tick = before ++ moments events m (tick + n) := by
  induction n generalizing tick with
  | zero => exact ⟨[], rfl, fun m => by rw [Nat.zero_add]; rfl⟩
  | succ n ih =>
      obtain ⟨before, hStop, hGoOn⟩ := ih (tick + 1)
      have hTick : tick + 1 + n = tick + (n + 1) := by omega
      refine ⟨deliveries events tick ++ .passing :: before, ?_, fun m => ?_⟩
      · rw [moments_succ, hStop, hTick, List.append_assoc, List.cons_append]
      · rw [Nat.succ_add, moments_succ, hGoOn, hTick, List.append_assoc, List.cons_append]

theorem moments_first (events : List EventDefinition) (n tick : Nat) :
    ∃ after, moments events n tick = deliveries events tick ++ after := by
  cases n with
  | zero => exact ⟨[], (List.append_nil _).symm⟩
  | succ n => exact ⟨_, moments_succ n tick⟩

theorem count_deliveries (tick : Nat) (e : EventDefinition) :
    (deliveries events tick).count (.delivery e) = if e.tick = tick then events.count e else 0 := by
  rw [deliveries, List.count_map_of_injective _ _ fun _ _ h => by injection h]
  split
  · rename_i hTick
    exact List.count_filter (decide_eq_true hTick)
  · rename_i hTick
    exact List.count_eq_zero.mpr fun hMem => hTick (of_decide_eq_true (List.mem_filter.mp hMem).2)

/-- A run delivers the events of the ticks that it comes to, each as often as the scene has it. -/
theorem count_moments (n tick : Nat) (e : EventDefinition) :
    (moments events n tick).count (.delivery e) =
      if tick ≤ e.tick ∧ e.tick ≤ tick + n then events.count e else 0 := by
  induction n generalizing tick with
  | zero =>
      rw [moments, count_deliveries]
      exact if_congr (by omega) rfl rfl
  | succ n ih =>
      rw [moments_succ, List.count_append, List.count_cons_of_ne (by simp), ih, count_deliveries]
      split <;> split <;> split <;> omega

theorem deliveries_eq_nil_iff {tick : Nat} :
    deliveries events tick = [] ↔ ∀ e ∈ events, e.tick ≠ tick := by
  simp only [deliveries, List.map_eq_nil_iff, List.filter_eq_nil_iff, decide_eq_true_eq, ne_eq]

end moments

section perform

variable (rules : Rules) (fuel : Nat) (dt : Duration)

theorem deliverTick_eq (events : List EventDefinition) (tick : Nat) :
    deliverTick rules fuel events tick =
      (deliveries events tick).forM (Moment.perform rules fuel dt) := by
  simp only [deliverTick, deliveries, List.forM_eq_forM, List.forM_map]
  induction events with
  | nil => rfl
  | cons e events ih =>
      by_cases hTick : e.tick = tick
      · simp only [List.filter_cons, hTick, decide_true, if_true, List.forM_cons, ih, Moment.perform]
      · simp only [List.filter_cons, hTick, decide_false, Bool.false_eq_true, if_false, ih]

theorem runTicks_eq (events : List EventDefinition) (n tick : Nat) :
    runTicks rules fuel events dt n tick =
      (moments events n tick).forM (Moment.perform rules fuel dt) := by
  induction n generalizing tick with
  | zero => exact deliverTick_eq rules fuel dt events tick
  | succ n ih =>
      rw [runTicks, moments_succ, ih, deliverTick_eq rules fuel dt]
      simp only [List.forM_eq_forM, List.forM_append, List.forM_cons]
      rfl

end perform

namespace Running

/-- The scene behind what was done, `n` ticks on. -/
def after (r : Running) (n : Nat) : EStateM.Result Halt Session Unit → Except Halt Running
  | .ok () session => .ok { r with engine := { r.engine with session }, ticks := r.ticks + n }
  | .error halt _ => .error halt

/-- Plays moments that take `n` ticks. -/
def play (r : Running) (fuel n : Nat) (dt : Duration) (course : List Moment) :
    Except Halt Running :=
  r.after n (course.forM (Moment.perform r.engine.rules fuel dt) r.engine.session)

variable (r : Running) (fuel : Nat) (dt : Duration)

theorem run_eq_play (n : Nat) : r.run fuel n dt = r.play fuel n dt (moments r.events n r.ticks) := by
  rw [play, ← runTicks_eq]
  simp only [run, Engine.perform]
  cases runTicks r.engine.rules fuel r.events dt n r.ticks r.engine.session <;> rfl

theorem play_append (n m : Nat) (front back : List Moment) :
    r.play fuel (n + m) dt (front ++ back) =
      (r.play fuel n dt front).bind fun r => r.play fuel m dt back := by
  unfold play
  rw [List.forM_eq_forM, List.forM_append, Action.bind_apply]
  cases forM front (Moment.perform r.engine.rules fuel dt) r.engine.session with
  | error halt session => rfl
  | ok u session =>
    simp only [after, Except.bind, ← Nat.add_assoc]

/-- The next run starts at the tick that the run before it stopped at. -/
theorem run_bind (n m : Nat) :
    ((r.run fuel n dt).bind fun r => r.run fuel m dt) =
      r.play fuel (n + m) dt (moments r.events n r.ticks ++ moments r.events m (r.ticks + n)) := by
  rw [play_append, run_eq_play]
  unfold play
  cases (moments r.events n r.ticks).forM (Moment.perform r.engine.rules fuel dt)
      r.engine.session with
  | error halt session => rfl
  | ok u session => exact run_eq_play _ fuel dt m

/-- Two runs one after the other play the deliveries of the tick between them twice, and one run of all
their ticks plays them once; else they play the same. So they deliver the events of that tick once more
than the scene has them, and they are the same as one run if there is no such event. -/
theorem run_in_pieces (n m : Nat) :
    ((r.run fuel n dt).bind fun r => r.run fuel m dt) =
        r.play fuel (n + m) dt (moments r.events n r.ticks ++ moments r.events m (r.ticks + n)) ∧
      r.run fuel (n + m) dt = r.play fuel (n + m) dt (moments r.events (n + m) r.ticks) ∧
      (∃ before after,
        moments r.events n r.ticks = before ++ deliveries r.events (r.ticks + n) ∧
        moments r.events m (r.ticks + n) = deliveries r.events (r.ticks + n) ++ after ∧
        moments r.events (n + m) r.ticks = before ++ deliveries r.events (r.ticks + n) ++ after) ∧
      (∀ e, (moments r.events (n + m) r.ticks).count (.delivery e) =
          (if r.ticks ≤ e.tick ∧ e.tick ≤ r.ticks + (n + m) then r.events.count e else 0) ∧
        (moments r.events n r.ticks ++ moments r.events m (r.ticks + n)).count (.delivery e) =
          (moments r.events (n + m) r.ticks).count (.delivery e) +
            if e.tick = r.ticks + n then r.events.count e else 0) ∧
      (moments r.events n r.ticks ++ moments r.events m (r.ticks + n) =
          moments r.events (n + m) r.ticks ↔ ∀ e ∈ r.events, e.tick ≠ r.ticks + n) := by
  obtain ⟨before, hStop, hGoOn⟩ := moments_last r.events n r.ticks
  obtain ⟨after, hStart⟩ := moments_first r.events m (r.ticks + n)
  have hWhole : moments r.events (n + m) r.ticks =
      before ++ deliveries r.events (r.ticks + n) ++ after := by
    rw [hGoOn, hStart, List.append_assoc]
  refine ⟨r.run_bind fuel dt n m, r.run_eq_play fuel dt _, ⟨before, after, hStop, hStart, hWhole⟩,
    fun e => ⟨count_moments _ _ e, ?_⟩, ?_⟩
  · rw [hStop, hStart, hWhole, ← count_deliveries]
    simp only [List.count_append]
    omega
  · rw [hStop, hStart, hWhole, ← deliveries_eq_nil_iff, List.append_assoc, List.append_assoc,
      List.append_right_inj, ← List.append_assoc, List.append_left_inj]
    exact List.append_right_eq_self

end Running

end EntityScript.Scene
