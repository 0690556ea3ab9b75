import EntityScript.Proofs.Leads
import EntityScript.Proofs.Turns

/-! A dispatch as a sequence of steps. One step is one pass of the loop, with the dispatch of the event
that it sends; more fuel never changes what a dispatch comes to. -/
namespace EntityScript

theorem Action.bind_apply {α β : Type} (x : Action α) (f : α → Action β) (s : Session) :
    (x >>= f) s = match x s with
      | .ok a t => f a t
      | .error h t => .error h t := by
  change EStateM.bind x f s = _
  unfold EStateM.bind
  cases x s <;> rfl

theorem Action.discard_ok {α : Type} {x : Action α} {s t : Session} :
    Functor.discard x s = .ok () t ↔ ∃ a, x s = .ok a t := by
  change (x >>= fun _ => pure ()) s = _ ↔ _
  rw [bind_apply]
  cases hRun : x s with
  | ok a u => exact ⟨fun h => ⟨a, by cases h; rfl⟩, fun ⟨_, h⟩ => by cases h; rfl⟩
  | error h u => exact ⟨nofun, nofun⟩

theorem Action.discard_error {α : Type} {x : Action α} {s t : Session} {h : Halt} :
    Functor.discard x s = .error h t ↔ x s = .error h t := by
  change (x >>= fun _ => pure ()) s = _ ↔ _
  rw [bind_apply]
  cases hRun : x s with
  | ok a u => exact ⟨nofun, nofun⟩
  | error h' u => exact ⟨fun h => by cases h; rfl, fun h => by cases h; rfl⟩

namespace Frame

theorem perform_ok {α : Type} {f g : Frame} {act : Act α} {a : α} {s t : Session}
    (h : f.perform act s = .ok (a, g) t) :
    act f.invocation ⟨s, f.pos, f.calls⟩ = .ok a ⟨t, g.pos, g.calls⟩ ∧
      g.invocation = f.invocation ∧ g.stance = f.stance := by
  unfold perform at h
  split at h
  · rename_i hAct
    cases h
    exact ⟨hAct, rfl, rfl⟩
  · cases h

/-- How a dispatch goes on from a frame whose next command word ends at `stop`. -/
inductive Moved (registry : Registry) (f : Frame) (word : String) (stop : Nat) (g : Frame) : Prop where
  | passed (hWord : word ≠ "\x7b" ∧ word ≠ "\x7d") (hOn : f.invocation.script.Onward stop g.pos)
      (hCalls : g.calls = f.calls) (hStance : g.stance = f.stance)
  | opened (hWord : word = "\x7b") (hPos : g.pos = stop) (hCalls : g.calls = f.calls)
      (hStance : g.stance = { f.stance with brackets := f.stance.brackets.opened })
  | closed (hWord : word = "\x7d") (hBrackets : f.stance.brackets ≠ .event 1) (hPos : g.pos = stop)
      (hCalls : g.calls = f.calls)
      (hStance : g.stance = { f.stance with brackets := f.stance.brackets.closed })
  | resumed (hWord : word = "\x7d") (hBrackets : f.stance.brackets = .event 1)
      (hResumes : f.invocation.suppressions.resumes f.invocation.script.name stop = true)
      (hPos : g.pos = stop) (hCalls : g.calls = f.calls) (hStance : g.stance = f.stance)
  | leapt (c : Command) (hCommand : registry.find? word = some c) (hName : c.name ∈ Command.jumps)
      (hLeap : Act.Leap f.invocation.script stop f.calls g.pos g.calls)
      (hStance : g.stance = ⟨false, .landed (f.invocation.script.blockDepth g.pos)⟩)

end Frame

namespace Rules

/-- Goes on in a frame, unless its entity is gone. -/
def goOn (f : Frame) (stance : Stance) : Action (Verdict ⊕ Frame) := fun s =>
  .ok (if s.world.entities.contains f.invocation.entity then .inr { f with stance }
    else .inl .destructive) s

/-- One pass of the loop of a dispatch: it ends with a verdict, or it goes on in a frame. -/
def pass (rules : Rules) (fuel : Nat) (f : Frame) : Action (Verdict ⊕ Frame) := do
  let (turn, f) ← f.perform (Act.turn rules.registry f.stance)
  match turn with
  | .finish v => return .inl v
  | .go stance => goOn f stance
  | .send s stance =>
    discard <| rules.deliverWith (rules.run fuel) {
      sender := some f.invocation.entity, target := s.target, event := s.event
      parameters := s.parameters }
    goOn f stance

/-- One pass of the loop, whatever is done to dispatch the event that it sends. -/
def passWith (rules : Rules) (dispatch : Delivery → Action Verdict) (f : Frame) :
    Action (Verdict ⊕ Frame) := do
  let (turn, f) ← f.perform (Act.turn rules.registry f.stance)
  match turn with
  | .finish v => return .inl v
  | .go stance => goOn f stance
  | .send s stance =>
    discard <| dispatch {
      sender := some f.invocation.entity, target := s.target, event := s.event
      parameters := s.parameters }
    goOn f stance

theorem pass_eq (rules : Rules) (fuel : Nat) (f : Frame) :
    rules.pass fuel f = rules.passWith (rules.deliver fuel) f := rfl

theorem goOn_bind (k : Frame → Action Verdict) (f : Frame) (stance : Stance) :
    (do
      if (← get).world.entities.contains f.invocation.entity then k { f with stance }
      else return .destructive : Action Verdict) = goOn f stance >>= Sum.elim pure k := by
  funext s
  rw [Action.bind_apply, Action.bind_apply, goOn]
  change (if s.world.entities.contains f.invocation.entity then k { f with stance }
    else pure .destructive : Action Verdict) s = _
  dsimp only
  split <;> rfl

/-- A run is a pass, and the run of the frame that it goes on in. -/
theorem run_succ (rules : Rules) (fuel : Nat) (f : Frame) :
    rules.run (fuel + 1) f = rules.pass fuel f >>= Sum.elim pure (rules.run fuel) := by
  funext s
  rw [run, pass, Action.bind_apply, Action.bind_apply, Action.bind_apply]
  cases hTurn : f.perform (Act.turn rules.registry f.stance) s with
  | error h t => rfl
  | ok result t =>
      obtain ⟨turn, g⟩ := result
      cases turn with
      | finish v => rfl
      | go stance => exact congrFun (goOn_bind (rules.run fuel) g stance) t
      | send e stance =>
          dsimp only
          rw [goOn_bind (rules.run fuel) g stance, Action.bind_apply, Action.bind_apply]
          cases (discard (rules.deliverWith (rules.run fuel) {
            sender := some g.invocation.entity, target := e.target, event := e.event
            parameters := e.parameters })) t with
          | ok _ u => exact Action.bind_apply _ _ u
          | error h u => rfl

/-- One step of a dispatch, with as much fuel as it takes. -/
def Step (rules : Rules) (x y : Frame × Session) : Prop :=
  ∃ fuel, rules.pass fuel x.1 x.2 = .ok (.inr y.1) y.2

/-- The step that a dispatch takes with so much fuel, if it goes on. -/
def next? (rules : Rules) (fuel : Nat) (x : Frame × Session) : Option (Frame × Session) :=
  match rules.pass fuel x.1 x.2 with
  | .ok (.inr g) t => some (g, t)
  | _ => none

theorem pass_of_next? {rules : Rules} {fuel : Nat} {x y : Frame × Session}
    (h : rules.next? fuel x = some y) : rules.pass fuel x.1 x.2 = .ok (.inr y.1) y.2 := by
  unfold next? at h
  split at h
  · rename_i hPass
    cases h
    exact hPass
  · cases h

theorem step_of_next? {rules : Rules} {fuel : Nat} {x y : Frame × Session}
    (h : rules.next? fuel x = some y) : rules.Step x y := ⟨fuel, pass_of_next? h⟩

end Rules

/-- Whether a run comes to a value, and this and the state pass a check. -/
def Result.passes {ε σ α : Type} (check : α → σ → Bool) : EStateM.Result ε σ α → Bool
  | .ok a s => check a s
  | .error _ _ => false

theorem Result.exists_of_passes {ε σ α : Type} {check : α → σ → Bool} {r : EStateM.Result ε σ α}
    (h : passes check r = true) : ∃ a s, r = .ok a s ∧ check a s = true := by
  cases r with
  | ok a s => exact ⟨a, s, rfl, h⟩
  | error _ _ => cases h

/-- `Except` has no decidable equality, `Option` has: a check compares an answer as an option. -/
theorem eq_ok_of_toOption {ε α : Type} {answer : Except ε α} {a : α}
    (h : answer.toOption = some a) : answer = .ok a := by
  cases answer with
  | ok b => exact congrArg Except.ok (Option.some.inj h)
  | error e => cases h

namespace Rules

/-- The rules of a session that is set up in no special way. -/
def plain : Rules := ⟨{ seed := some 0 }, .empty, .builtins⟩

/-- A dispatch of `init` at an offset of a script, in a session whose only entity runs it. -/
def initAt (script : Script) (pos : Nat) : Frame × Session :=
  (⟨{ script, entity := ⟨0⟩, event := .fixed .init }, pos, [], ⟨false, .event 1⟩⟩,
    (Session.spawn { className := "npc", script := some script }
      ⟨.ofConfig plain.config, .silent, #[]⟩).2)

/-- Where so many steps lead that all pass a check, if the dispatch goes on for so long. -/
def walk? (rules : Rules) (check : Frame → Frame → Bool) :
    Nat → Frame × Session → Option (Frame × Session)
  | 0, x => some x
  | n + 1, x => (rules.next? n x).bind fun y =>
    if check x.1 y.1 then walk? rules check n y else none

theorem steps_of_walk? {rules : Rules} {check : Frame → Frame → Bool} {n : Nat}
    {x y : Frame × Session} (h : rules.walk? check n x = some y) :
    Leads (fun a b => rules.Step a b ∧ check a.1 b.1 = true) x y := by
  induction n generalizing x with
  | zero =>
      cases h
      exact .refl
  | succ n ih =>
      obtain ⟨z, hStep, hRest⟩ := Option.bind_eq_some_iff.mp h
      split at hRest
      · rename_i hCheck
        exact .head ⟨step_of_next? hStep, hCheck⟩ (ih hRest)
      · cases hRest

/-- A run that comes to a verdict takes steps to a frame whose pass ends with that verdict. -/
theorem run_ok {rules : Rules} {fuel : Nat} {f : Frame} {s t : Session} {v : Verdict}
    (h : rules.run fuel f s = .ok v t) :
    ∃ last fuel', Leads rules.Step (f, s) last ∧
      rules.pass fuel' last.1 last.2 = .ok (.inl v) t := by
  induction fuel generalizing f s with
  | zero => cases h
  | succ fuel ih =>
      rw [run_succ, Action.bind_apply] at h
      cases hPass : rules.pass fuel f s with
      | error halt u =>
          rw [hPass] at h
          cases h
      | ok next u =>
          rw [hPass] at h
          cases next with
          | inl w =>
              cases h
              exact ⟨(f, s), fuel, .refl, hPass⟩
          | inr g =>
              obtain ⟨last, fuel', hSteps, hLast⟩ := ih h
              exact ⟨last, fuel', .head ⟨fuel, hPass⟩ hSteps, hLast⟩

theorem goOn_ok {f g : Frame} {stance : Stance} {s t : Session}
    (h : goOn f stance s = .ok (.inr g) t) : g = { f with stance } ∧ t = s := by
  unfold goOn at h
  split at h
  · cases h
    exact ⟨rfl, rfl⟩
  · cases h

/-- A pass goes on from a turn that does not end the dispatch. -/
theorem passWith_inr {rules : Rules} {dispatch : Delivery → Action Verdict} {f g : Frame}
    {s t : Session} (h : rules.passWith dispatch f s = .ok (.inr g) t) :
    ∃ turn q, Act.turn rules.registry f.stance f.invocation ⟨s, f.pos, f.calls⟩ = .ok turn q ∧
      g.invocation = f.invocation ∧ g.pos = q.pos ∧ g.calls = q.calls ∧
      (turn = .go g.stance ∨ ∃ e, turn = .send e g.stance) := by
  rw [passWith, Action.bind_apply] at h
  cases hTurn : f.perform (Act.turn rules.registry f.stance) s with
  | error halt u =>
      rw [hTurn] at h
      cases h
  | ok result u =>
      obtain ⟨turn, f'⟩ := result
      rw [hTurn] at h
      obtain ⟨hAct, hInvocation, _⟩ := Frame.perform_ok hTurn
      cases turn with
      | finish v => cases h
      | go stance =>
          obtain ⟨rfl, _⟩ := goOn_ok h
          exact ⟨_, _, hAct, hInvocation, rfl, rfl, .inl rfl⟩
      | send e stance =>
          dsimp only at h
          rw [Action.bind_apply] at h
          split at h
          · obtain ⟨rfl, _⟩ := goOn_ok h
            exact ⟨_, _, hAct, hInvocation, rfl, rfl, .inr ⟨e, rfl⟩⟩
          · cases h

/-- A pass that goes on reads a command word and moves on from it. -/
theorem passWith_moved {rules : Rules} (hRegistry : rules.registry.OfBuiltins)
    {dispatch : Delivery → Action Verdict} {f g : Frame} {s t : Session}
    (h : rules.passWith dispatch f s = .ok (.inr g) t) :
    ∃ scan, f.invocation.script.commandAt (!f.stance.line) f.pos = .ok scan ∧
      g.invocation = f.invocation ∧
      f.Moved rules.registry (String.ofList scan.value) scan.stop.pos g := by
  obtain ⟨turn, q, hTurn, hInvocation, hPos, hCalls, hStance⟩ := passWith_inr h
  have hCases := Act.turn_cases hRegistry f.stance f.invocation ⟨s, f.pos, f.calls⟩
  rw [Act.Ends, hTurn] at hCases
  obtain ⟨scan, log, hScan, hTurned⟩ := hCases
  refine ⟨scan, hScan, hInvocation, ?_⟩
  cases hTurned with
  | finished hAdvance => simp at hStance
  | passed hWord hAdvance =>
      have hSame : g.stance = f.stance := by simpa [eq_comm] using hStance
      exact .passed hWord (hPos ▸ hAdvance.pos) (hCalls.trans hAdvance.calls) hSame
  | sent hWord hAdvance =>
      have hSame : g.stance = f.stance := by simpa [eq_comm] using hStance
      exact .passed hWord (hPos ▸ hAdvance.pos) (hCalls.trans hAdvance.calls) hSame
  | opened hWord hAdvance =>
      exact .opened hWord (hPos.trans hAdvance.pos) (hCalls.trans hAdvance.calls)
        (by simpa [eq_comm] using hStance)
  | closed hWord hBrackets hAdvance =>
      exact .closed hWord hBrackets (hPos.trans hAdvance.pos) (hCalls.trans hAdvance.calls)
        (by simpa [eq_comm] using hStance)
  | resumed hWord hBrackets hResumes hAdvance =>
      exact .resumed hWord hBrackets hResumes (hPos.trans hAdvance.pos)
        (hCalls.trans hAdvance.calls) (by simpa [eq_comm] using hStance)
  | leapt hCommand hName hSession hLeap =>
      refine .leapt _ hCommand hName ?_ ?_
      · rw [hPos, hCalls]
        exact hLeap
      · rw [hPos]
        simpa [eq_comm] using hStance

/-- Every step reads a command word and moves on from it. -/
theorem Step.moved {rules : Rules} (hRegistry : rules.registry.OfBuiltins) {f g : Frame}
    {s t : Session} (h : rules.Step (f, s) (g, t)) :
    ∃ scan, f.invocation.script.commandAt (!f.stance.line) f.pos = .ok scan ∧
      g.invocation = f.invocation ∧
      f.Moved rules.registry (String.ofList scan.value) scan.stop.pos g := by
  obtain ⟨fuel, hPass⟩ := h
  exact passWith_moved hRegistry hPass

end Rules

end EntityScript
