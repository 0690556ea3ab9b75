import EntityScript.Proofs.Runs

/-! What whole dispatches keep. The ground is a set of places in scripts that dispatches do not leave:
they are entered there, they read on and jump there, and they start timers there. Time stands still
meanwhile. -/
namespace EntityScript

/-- Neither reading on nor a label leads off the ground. -/
structure Terrain (ground : Script → Nat → Prop) : Prop where
  onward : ∀ {script p q}, ground script p → script.Onward p q → ground script q
  label : ∀ {script p name q}, ground script p → script.label? name = some q → ground script q

/-- Every event of the script is entered on the ground. -/
def Script.Enterable (ground : Script → Nat → Prop) (script : Script) : Prop :=
  ∀ event start, script.eventStart? event = some start → ground script start

/-- The scripts of a session are entered on the ground, and its timers run lines there. -/
structure Session.Grounded (ground : Script → Nat → Prop) (s : Session) : Prop where
  scripts : ∀ m ∈ s.world.entities.members,
    m.2.script.Enterable ground ∧ m.2.overriding.Enterable ground
  timers : ∀ i t, s.world.timers.slot? i = some t → ground t.script t.pos

/-- A timer that was started at the time of a session, for a line on the ground. -/
def Session.Starts (ground : Script → Nat → Prop) (s : Session) (t : Timer) : Prop :=
  t.start = s.world.clock ∧ ground t.script t.pos

/-- A dispatch stands on the ground, and so do its return points. -/
structure Frame.Grounded (ground : Script → Nat → Prop) (f : Frame) : Prop where
  pos : ground f.invocation.script f.pos
  calls : ∀ c ∈ f.calls, ground f.invocation.script c.returnPos

/-- Why a dispatch on the ground may halt. -/
def Halt.Excused (ground : Script → Nat → Prop) (h : Halt) : Prop :=
  h = .outOfFuel ∨
    (h = .fault .unboundedDraw ∧ ∃ script pos, ground script pos ∧ script.Boundless) ∨
    (h = .fault .outsideText ∧ ∃ script pos, ground script pos ∧
      (script.Placed pos → ¬ script.Sealed))

variable {ground : Script → Nat → Prop} {origin s t : Session} {α β : Type} {Q : α → Prop}
  {R : β → Prop}

theorem Session.Grounded.evolves (hs : s.Grounded ground)
    (h : Session.Evolves (origin.Starts ground) s t) : t.Grounded ground := by
  refine ⟨fun m hm => ?_, fun i x hx => ?_⟩
  · obtain ⟨n, hn, hScript, hOverriding⟩ := h.scripts m hm
    rw [hScript, hOverriding]
    exact hs.scripts n hn
  · rcases h.timers i x hx with hOld | hStarted
    · exact hs.timers i x hOld
    · exact hStarted.2

theorem Session.Grounded.scripts_of_get? (hs : s.Grounded ground) {id : EntityId} {e : Entity}
    (h : s.world.entities.get? id = some e) :
    e.script.Enterable ground ∧ e.overriding.Enterable ground := by
  obtain ⟨m, hm, rfl⟩ := Option.map_eq_some_iff.mp h
  exact hs.scripts m (List.mem_of_find?_eq_some hm)

namespace Action

/-- From wherever the dispatches so far have led, the action comes to a value with `Q` and keeps to
what dispatches do, or it has an excuse. -/
def Keeps (ground : Script → Nat → Prop) (origin : Session) (Q : α → Prop) (act : Action α) : Prop :=
  ∀ s, Session.Evolves (origin.Starts ground) origin s →
    match act s with
    | .ok a t => Session.Evolves (origin.Starts ground) origin t ∧ Q a
    | .error h _ => h.Excused ground

namespace Keeps

theorem pure {a : α} (ha : Q a) : Keeps ground origin Q (Pure.pure a) := fun _ hs => ⟨hs, ha⟩

theorem bind {x : Action α} {f : α → Action β} (hx : Keeps ground origin Q x)
    (hf : ∀ a, Q a → Keeps ground origin R (f a)) : Keeps ground origin R (x >>= f) := by
  intro s hs
  have hFirst := hx s hs
  rw [bind_apply]
  cases hRun : x s with
  | ok a t =>
      rw [hRun] at hFirst
      exact hf a hFirst.2 t hFirst.1
  | error h t =>
      rw [hRun] at hFirst
      exact hFirst

theorem andThen {x : Action α} {f : α → Action β} (hx : Keeps ground origin (fun _ => True) x)
    (hf : ∀ a, Keeps ground origin R (f a)) : Keeps ground origin R (x >>= f) :=
  hx.bind fun a _ => hf a

theorem get : Keeps ground origin (Session.Evolves (origin.Starts ground) origin)
    (MonadState.get : Action Session) := fun _ hs => ⟨hs, hs⟩

theorem update {f : Session → Session}
    (hf : ∀ s, Session.Evolves (origin.Starts ground) s (f s)) :
    Keeps ground origin (fun _ => True) (modify f : Action Unit) :=
  fun s hs => ⟨hs.trans (hf s), True.intro⟩

theorem discard {x : Action α} (hx : Keeps ground origin (fun _ => True) x) :
    Keeps ground origin (fun _ => True) (Functor.discard x) :=
  hx.andThen fun _ => .pure True.intro

end Keeps

end Action

/-- Timers that an act starts at a place on the ground are started there. -/
theorem Session.Evolves.starts (hTerrain : Terrain ground) {inv : Invocation} {here : Progress}
    (hHere : ground inv.script here.pos) (h : Session.Evolves (inv.Fresh here) here.session s) :
    Session.Evolves (here.session.Starts ground) here.session s :=
  h.mono fun _ ht => ⟨ht.clock, ht.script ▸ hTerrain.onward hHere ht.onward⟩

/-- Running an act in a frame that it leaves on the ground. -/
theorem Frame.perform_keeps {f : Frame} {act : Act α} (hf : f.Grounded ground)
    (hAct : ∀ s : Session, Act.Ends f.invocation ⟨s, f.pos, f.calls⟩ act ⟨s, f.pos, f.calls⟩
      fun _ q => Session.Evolves (s.Starts ground) s q.session ∧
        Frame.Grounded ground { f with pos := q.pos, calls := q.calls }) :
    Action.Keeps ground origin (fun r => r.2.Grounded ground) (f.perform act) := by
  intro s hs
  have hEnds := hAct s
  unfold perform
  unfold Act.Ends at hEnds
  cases hRun : act f.invocation ⟨s, f.pos, f.calls⟩ with
  | ok a q =>
      rw [hRun] at hEnds
      refine ⟨hs.trans (hEnds.1.mono fun t ht => ⟨?_, ht.2⟩), hEnds.2⟩
      rw [ht.1, hs.clock]
  | error h q =>
      rw [hRun] at hEnds
      exact .inr (hEnds.1.imp (fun hDraw => ⟨hDraw.1, _, _, hf.pos, hDraw.2⟩)
        fun hOutside => ⟨hOutside.1, _, _, hf.pos, hOutside.2⟩)

namespace Rules

variable {rules : Rules}

theorem turn_keeps (hTerrain : Terrain ground) (hRegistry : rules.registry.OfBuiltins) {f : Frame}
    (hf : f.Grounded ground) : Action.Keeps ground origin (fun r => r.2.Grounded ground)
      (f.perform (Act.turn rules.registry f.stance)) := by
  refine Frame.perform_keeps hf fun s => ?_
  refine (Act.turn_cases hRegistry f.stance f.invocation ⟨s, f.pos, f.calls⟩).mono ?_
  rintro turn q ⟨scan, log, hScan, hTurned⟩
  have hHere : ground f.invocation.script scan.stop.pos :=
    hTerrain.onward hf.pos (Script.commandAt_onward hScan)
  have hEvolves := hTurned.evolves.starts hTerrain hHere
  refine ⟨⟨hEvolves.clock, hEvolves.scripts, hEvolves.timers⟩, ?_⟩
  rcases hTurned.moves with ⟨hOn, hCalls⟩ | hLeap
  · exact ⟨hTerrain.onward hHere hOn, by rw [hCalls]; exact hf.calls⟩
  · cases hLeap with
    | enter label hLabel hCalls =>
        refine ⟨hTerrain.label hHere hLabel, ?_⟩
        rw [hCalls]
        intro c hc
        rcases List.mem_cons.mp hc with rfl | hOld
        · exact hTerrain.onward hHere (Script.onward_of_reaches (Script.nextWord_reaches _ _))
        · exact hf.calls c hOld
    | go label hLabel hCalls =>
        exact ⟨hTerrain.label hHere hLabel, by rw [hCalls]; exact hf.calls⟩
    | back label hCalls =>
        have hPoints : f.calls = ⟨label, q.pos⟩ :: q.calls := hCalls
        exact ⟨hf.calls ⟨label, q.pos⟩ (by rw [hPoints]; exact List.mem_cons_self),
          fun c hc => hf.calls c (by rw [hPoints]; exact List.mem_cons_of_mem _ hc)⟩

theorem goOn_keeps {f : Frame} (hf : f.Grounded ground) (stance : Stance) :
    Action.Keeps ground origin (fun r => ∀ g, r = .inr g → g.Grounded ground) (goOn f stance) := by
  intro s hs
  refine ⟨hs, fun g hg => ?_⟩
  split at hg
  · cases hg
    exact ⟨hf.pos, hf.calls⟩
  · cases hg

theorem nested_keeps (script : Script) (event : EventName) {act : Action Verdict}
    (hAct : Action.Keeps ground origin (fun _ => True) act) :
    Action.Keeps ground origin (fun _ => True) (rules.nested script event act) := by
  refine Action.Keeps.get.bind fun s _ => ?_
  split
  · refine Action.Keeps.andThen (.update fun s => .of_same rfl rfl rfl) fun _ => ?_
    exact .pure True.intro
  · refine Action.Keeps.andThen (.update fun s => .of_same rfl rfl rfl) fun _ => ?_
    refine hAct.andThen fun _ => ?_
    refine Action.Keeps.andThen (.update fun s => .of_same rfl rfl rfl) fun _ => ?_
    exact .pure True.intro

theorem deliverTo_keeps (hTerrain : Terrain ground) {run : Frame → Action Verdict}
    (hRun : ∀ f, f.Grounded ground → Action.Keeps ground origin (fun _ => True) (run f))
    (d : Delivery) {script : Script} (hScript : script.Enterable ground) :
    Action.Keeps ground origin (fun _ => True) (rules.deliverTo run d script) := by
  unfold deliverTo
  split
  · exact .pure True.intro
  · rename_i header hHeader
    refine nested_keeps _ _ ?_
    have hHeaderGround := hScript _ _ hHeader
    refine Action.Keeps.bind (Frame.perform_keeps ⟨hHeaderGround, nofun⟩ fun s => ?_) ?_
    · refine (Act.openEvent_steady _ (Advance.refl _ _).onward).mono fun _ q hq => ?_
      refine ⟨hq.1.session.starts hTerrain hHeaderGround, hTerrain.onward hHeaderGround hq.1.pos, ?_⟩
      rw [hq.1.calls]
      exact nofun
    · rintro ⟨opened, g⟩ hg
      dsimp only
      split
      · exact hRun g hg
      · exact .pure True.intro

theorem deliverWith_keeps (hTerrain : Terrain ground) (hOrigin : origin.Grounded ground)
    {run : Frame → Action Verdict}
    (hRun : ∀ f, f.Grounded ground → Action.Keeps ground origin (fun _ => True) (run f))
    (d : Delivery) : Action.Keeps ground origin (fun _ => True) (rules.deliverWith run d) := by
  refine Action.Keeps.get.bind fun s hs => ?_
  cases hTarget : s.world.entities.get? d.target with
  | none => exact .pure True.intro
  | some e =>
      have hScripts := (hOrigin.evolves hs).scripts_of_get? hTarget
      dsimp only
      split
      · exact .pure True.intro
      · split
        · exact .pure True.intro
        · refine (deliverTo_keeps hTerrain hRun d hScripts.2).andThen fun _ =>
            Action.Keeps.get.bind fun _ _ => ?_
          split
          · exact .pure True.intro
          · exact deliverTo_keeps hTerrain hRun d hScripts.1

theorem pass_keeps (hTerrain : Terrain ground) (hRegistry : rules.registry.OfBuiltins) {fuel : Nat}
    (hDeliver : ∀ d, Action.Keeps ground origin (fun _ => True)
      (rules.deliverWith (rules.run fuel) d)) {f : Frame} (hf : f.Grounded ground) :
    Action.Keeps ground origin (fun r => ∀ g, r = .inr g → g.Grounded ground)
      (rules.pass fuel f) := by
  refine (turn_keeps hTerrain hRegistry hf).bind ?_
  rintro ⟨turn, g⟩ hg
  cases turn with
  | finish v => exact .pure fun _ h => by cases h
  | go stance => exact goOn_keeps hg stance
  | send e stance => exact (hDeliver _).discard.andThen fun _ => goOn_keeps hg stance

/-- A dispatch that stands on the ground keeps to what dispatches do. -/
theorem run_keeps (hTerrain : Terrain ground) (hRegistry : rules.registry.OfBuiltins)
    (hOrigin : origin.Grounded ground) (fuel : Nat) {f : Frame} (hf : f.Grounded ground) :
    Action.Keeps ground origin (fun _ => True) (rules.run fuel f) := by
  induction fuel generalizing f with
  | zero => exact fun _ _ => .inl rfl
  | succ fuel ih =>
      rw [run_succ]
      -- The events that a pass sends are dispatched with less fuel, so `ih` serves them as well.
      refine (pass_keeps hTerrain hRegistry (deliverWith_keeps hTerrain hOrigin fun g => ih) hf).bind ?_
      rintro (v | g) hNext
      · exact .pure True.intro
      · exact ih (hNext g rfl)

theorem runLine_keeps (hTerrain : Terrain ground) (hRegistry : rules.registry.OfBuiltins)
    (hOrigin : origin.Grounded ground) (fuel : Nat) {script : Script} {pos : Nat}
    (hPos : ground script pos) (entity : EntityId) (timer : Option String) :
    Action.Keeps ground origin (fun _ => True) (rules.runLine fuel script entity pos timer) := by
  refine Action.Keeps.get.bind fun s _ => ?_
  split
  · exact nested_keeps _ _ (run_keeps hTerrain hRegistry hOrigin fuel ⟨hPos, nofun⟩)
  · exact .pure True.intro

end Rules

end EntityScript
