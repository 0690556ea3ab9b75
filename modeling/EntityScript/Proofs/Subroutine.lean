import EntityScript.Proofs.Runs
import EntityScript.Script.Normal

/-! Subroutines and the brackets of a dispatch. A return does not bring back the brackets that the
subroutine was called in: it counts them anew in the text behind the call. -/
namespace EntityScript

/-- The brackets are those that the text shows where so many blocks are open. -/
def Brackets.Shown (depth : Nat) : Brackets → Prop
  | .event n => n = depth ∧ 0 < depth
  | .nested _ => False
  | .off => depth = 0

theorem Brackets.landed_eq_iff {depth : Nat} {b : Brackets} :
    Brackets.landed depth = b ↔ b.Shown depth := by
  unfold landed
  split
  · cases b <;> simp [Shown, *]
  · cases b with
    | event n =>
        simp only [Shown, Brackets.event.injEq]
        omega
    | nested n => simp [Shown]
    | off => simp [Shown, *]

namespace Rules

variable {rules : Rules} {f g h k : Frame} {s t u v : Session}

theorem Step.invocation (hRegistry : rules.registry.OfBuiltins) (hStep : rules.Step (f, s) (g, t)) :
    g.invocation = f.invocation := by
  obtain ⟨_, _, hInvocation, _⟩ := hStep.moved hRegistry
  exact hInvocation

/-- A step keeps the return points, adds one, or takes the latest away. -/
theorem Step.calls (hRegistry : rules.registry.OfBuiltins) (hStep : rules.Step (f, s) (g, t)) :
    g.calls = f.calls ∨ (∃ c, g.calls = c :: f.calls) ∨ ∃ c, f.calls = c :: g.calls := by
  obtain ⟨scan, hScan, hInvocation, hMoved⟩ := hStep.moved hRegistry
  cases hMoved with
  | passed _ _ hCalls => exact .inl hCalls
  | opened _ _ hCalls => exact .inl hCalls
  | closed _ _ _ hCalls => exact .inl hCalls
  | resumed _ _ _ _ hCalls => exact .inl hCalls
  | leapt c _ _ hLeap =>
      cases hLeap with
      | enter label _ hCalls => exact .inr (.inl ⟨_, hCalls⟩)
      | go label _ hCalls => exact .inl hCalls
      | back label hCalls => exact .inr (.inr ⟨_, hCalls⟩)

/-- A step inside a subroutine: at least so many return points are left. -/
def StepInside (rules : Rules) (height : Nat) (x y : Frame × Session) : Prop :=
  rules.Step x y ∧ height ≤ y.1.calls.length

/-- Inside a subroutine the return points from before stay where they are. -/
theorem inside_calls (hRegistry : rules.registry.OfBuiltins) {x y : Frame × Session}
    (hInside : Leads (rules.StepInside x.1.calls.length) x y) :
    y.1.invocation = x.1.invocation ∧ ∃ inner, y.1.calls = inner ++ x.1.calls := by
  induction hInside with
  | refl => exact ⟨rfl, [], rfl⟩
  | @tail y z _ hStep ih =>
      obtain ⟨hInvocation, inner, hInner⟩ := ih
      obtain ⟨hStep, hHeight⟩ := hStep
      refine ⟨(Step.invocation hRegistry hStep).trans hInvocation, ?_⟩
      rcases Step.calls hRegistry hStep with hSame | ⟨c, hPush⟩ | ⟨c, hPop⟩
      · exact ⟨inner, hSame.trans hInner⟩
      · exact ⟨c :: inner, by rw [hPush, hInner, List.cons_append]⟩
      · cases inner with
        | nil =>
            have hLength := congrArg List.length (hInner.symm.trans hPop)
            simp only [List.nil_append, List.length_cons] at hLength
            omega
        | cons d inner =>
            rw [hPop, List.cons_append, List.cons.injEq] at hInner
            exact ⟨inner, hInner.2⟩

/-- The only step that adds a return point enters a subroutine. -/
theorem Step.enters (hRegistry : rules.registry.OfBuiltins) (hStep : rules.Step (f, s) (g, t))
    (hDeeper : g.calls.length = f.calls.length + 1) :
    ∃ call label, f.invocation.script.commandAt (!f.stance.line) f.pos = .ok call ∧
      g.calls = ⟨label, (Script.nextWord call.stop.pos
        (f.invocation.script.rest call.stop.pos)).stop.pos⟩ :: f.calls := by
  obtain ⟨call, hCall, _, hMoved⟩ := hStep.moved hRegistry
  cases hMoved with
  | passed _ _ hCalls => simp [hCalls] at hDeeper
  | opened _ _ hCalls => simp [hCalls] at hDeeper
  | closed _ _ _ hCalls => simp [hCalls] at hDeeper
  | resumed _ _ _ _ hCalls => simp [hCalls] at hDeeper
  | leapt c _ _ hLeap =>
      cases hLeap with
      | enter label _ hCalls => exact ⟨call, label, hCall, hCalls⟩
      | go label _ hCalls => simp [hCalls] at hDeeper
      | back label hCalls =>
          simp only [hCalls, List.length_cons] at hDeeper
          omega

/-- The only step that takes a return point away goes back to it. -/
theorem Step.leaves (hRegistry : rules.registry.OfBuiltins) (hStep : rules.Step (f, s) (g, t))
    (hShallower : g.calls.length < f.calls.length) :
    ∃ label, f.calls = ⟨label, g.pos⟩ :: g.calls ∧
      g.stance = ⟨false, .landed (f.invocation.script.blockDepth g.pos)⟩ := by
  obtain ⟨_, _, _, hMoved⟩ := hStep.moved hRegistry
  cases hMoved with
  | passed _ _ hCalls => simp [hCalls] at hShallower
  | opened _ _ hCalls => simp [hCalls] at hShallower
  | closed _ _ _ hCalls => simp [hCalls] at hShallower
  | resumed _ _ _ _ hCalls => simp [hCalls] at hShallower
  | leapt c _ _ hLeap hStance =>
      cases hLeap with
      | enter label _ hCalls =>
          simp only [hCalls, List.length_cons] at hShallower
          omega
      | go label _ hCalls => simp [hCalls] at hShallower
      | back label hCalls => exact ⟨label, hCalls, hStance⟩

/-- The return that ends a subroutine goes on right behind its call, with the return points from
before. The brackets are those that the text shows there, so they are the ones from before exactly
if the text showed these as well; brackets that were nested in code outside every block never come
back. -/
theorem return_brackets (hRegistry : rules.registry.OfBuiltins)
    (hEnter : rules.Step (f, s) (g, t)) (hDeeper : g.calls.length = f.calls.length + 1)
    (hInside : Leads (rules.StepInside g.calls.length) (g, t) (h, u))
    (hReturn : rules.Step (h, u) (k, v)) (hHeight : k.calls.length = f.calls.length) :
    ∃ call behind, f.invocation.script.commandAt (!f.stance.line) f.pos = .ok call ∧
      behind = (Script.nextWord call.stop.pos
        (f.invocation.script.rest call.stop.pos)).stop.pos ∧
      k = { f with
        pos := behind
        stance := ⟨false, .landed (f.invocation.script.blockDepth behind)⟩ } ∧
      (k.stance.brackets = f.stance.brackets ↔
        f.stance.brackets.Shown (f.invocation.script.blockDepth behind)) := by
  obtain ⟨call, label, hCall, hLabel⟩ := hEnter.enters hRegistry hDeeper
  obtain ⟨hSameInvocation, inner, hInner⟩ := inside_calls (x := (g, t)) hRegistry hInside
  simp only [hLabel] at hInner hSameInvocation
  have hShallower : k.calls.length < h.calls.length := by
    rw [hInner, List.length_append, List.length_cons]
    omega
  obtain ⟨last, hBack, hStance⟩ := hReturn.leaves hRegistry hShallower
  have hInvocation := (hReturn.invocation hRegistry).trans
    (hSameInvocation.trans (hEnter.invocation hRegistry))
  -- The points above the call are gone, so the one that is taken is that of the call.
  have hNone : inner = [] := by
    have hLength := congrArg List.length (hInner.symm.trans hBack)
    simp only [List.length_append, List.length_cons] at hLength
    exact List.length_eq_zero_iff.mp (by omega)
  rw [hInner, hNone, List.nil_append, List.cons.injEq, Call.mk.injEq] at hBack
  obtain ⟨⟨_, hPos⟩, hCalls⟩ := hBack
  refine ⟨call, _, hCall, hPos.symm, ?_, ?_⟩
  · cases k
    simp only at hInvocation hStance hCalls
    rw [hStance, ← hCalls, hInvocation, hSameInvocation, hEnter.invocation hRegistry]
  · rw [hStance, hSameInvocation, hEnter.invocation hRegistry]
    exact Brackets.landed_eq_iff

/-- A subroutine that is called from a block behind a label outside every block. -/
def outsideCall : Script := .ofNormal "npc"
  "on init \x7b\n goto a\n\x7d\n>>a\n\x7b\n gosub sub\n\x7d\n set #back 1\n accept\n>>sub\n return\n"

set_option maxRecDepth 100000 in
/-- There the brackets are nested when the subroutine is called, and they are others behind it: the
closing brace that follows ends the dispatch. -/
theorem return_brackets_outsideCall :
    ∃ called inside back, Leads plain.Step (initAt outsideCall 9) called ∧
      plain.Step called inside ∧ plain.Step inside back ∧
      inside.1.calls.length = called.1.calls.length + 1 ∧
      back.1.calls.length = called.1.calls.length ∧
      called.1.stance.brackets = .nested 1 ∧ back.1.stance.brackets = .event 1 ∧
      ¬ called.1.stance.brackets.Shown (outsideCall.blockDepth back.1.pos) := by
  have hRun : ((plain.walk? (fun _ _ => true) 2 (initAt outsideCall 9)).bind fun called =>
      (plain.next? 1 called).bind fun inside => (plain.next? 1 inside).map fun back =>
        (called.1.calls.length, inside.1.calls.length, back.1.calls.length,
          called.1.stance.brackets, back.1.stance.brackets,
          decide (called.1.invocation.script = outsideCall))) =
      some (0, 1, 0, .nested 1, .event 1, true) := by decide +kernel
  simp only [Option.bind_eq_some_iff, Option.map_eq_some_iff, Prod.mk.injEq, decide_eq_true_eq]
    at hRun
  obtain ⟨called, hWalk, inside, hInside, back, hBack, hCalled, hDeeper, hHeight, hNested, hEvent,
    hScript⟩ := hRun
  have hEnter := step_of_next? hInside
  have hReturn := step_of_next? hBack
  refine ⟨called, inside, back, ?_, hEnter, hReturn, by omega, by omega, hNested, hEvent, ?_⟩
  · exact Leads.mono (fun _ _ h => h.1) (steps_of_walk? hWalk)
  · obtain ⟨_, behind, _, _, hBehind, hBrackets⟩ := return_brackets (f := called.1) (g := inside.1)
      (h := inside.1) (k := back.1) Registry.builtins_ofBuiltins hEnter (by omega) .refl hReturn
      (by omega)
    have hPos : back.1.pos = behind := by rw [hBehind]
    rw [hPos, ← hScript, ← hBrackets, hNested, hEvent]
    exact nofun

end Rules

end EntityScript
