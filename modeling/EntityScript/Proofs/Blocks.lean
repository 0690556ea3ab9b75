import EntityScript.Proofs.Nesting
import EntityScript.Proofs.Runs
import EntityScript.Script.Normal

/-! A dispatch and the block of its event. The brackets of a dispatch count words and a block is
counted in bytes; while the two agree, every command that the dispatch gives stands inside the
block. -/
namespace EntityScript

namespace Frame

/-- The command word that a dispatch reads next. -/
def word? (f : Frame) : Option (Scan (List Char)) :=
  (f.invocation.script.commandAt (!f.stance.line) f.pos).toOption

/-- Where that word begins. -/
def wordStart (f : Frame) : Nat :=
  (Script.skipGaps (!f.stance.line) false f.pos (f.invocation.script.rest f.pos)).1.pos

/-- The frame stands behind the brace that opens the block of its event. -/
def begins (f : Frame) : Bool :=
  f.stance = ⟨false, .event 1⟩ &&
    match f.invocation.script.eventStart? f.invocation.event with
    | none => false
    | some header =>
      match f.invocation.script.commandAt true header with
      | .ok opening => opening.value = ['\x7b'] && f.pos = opening.stop.pos
      | .error _ => false

/-- The next word is no jump, and no suppression keeps the dispatch going behind its event. -/
def straight (registry : Registry) (f : Frame) : Bool :=
  f.word?.all fun w =>
    (registry.find? (String.ofList w.value)).all (fun c => !Command.jumps.contains c.name) &&
      !(w.value = ['\x7d'] && f.stance.brackets = .event 1 &&
        f.invocation.suppressions.resumes f.invocation.script.name w.stop.pos)

/-- On the way to `g` every brace that is read as a word stands bare, and everything else that is
passed holds whole blocks only. -/
def orderly (f g : Frame) : Bool :=
  f.word?.all fun w =>
    if w.value = ['\x7b'] || w.value = ['\x7d'] then w.notes.isEmpty
    else f.invocation.script.balanced f.pos g.pos

/-- The next word is a command, or a timer. -/
def commands (registry : Registry) (f : Frame) : Bool :=
  f.word?.any fun w => (registry.find? (String.ofList w.value)).isSome ||
    (Act.behind? "timer" w.value).isSome

/-- The dispatch is inside the block at `origin`, as deep as its brackets tell. -/
structure Inside (origin : Nat) (f : Frame) : Prop where
  line : f.stance.line = false
  behind : origin ≤ f.pos
  nest : ∃ zone depth, f.stance.brackets = .event depth ∧ 1 ≤ depth ∧
    f.invocation.script.nestAt? origin f.pos = some (zone, depth) ∧
    f.invocation.script.settled zone f.pos = true

section

variable {f g : Frame} {origin : Nat}

/-- Over whole blocks a dispatch comes out as deep as it was. -/
theorem Inside.over (h : f.Inside origin) (hOrigin : f.invocation.script.Valid origin)
    (hPos : f.invocation.script.Valid f.pos) (hLe : f.pos ≤ g.pos)
    (hBalanced : f.invocation.script.balanced f.pos g.pos = true)
    (hInvocation : g.invocation = f.invocation) (hStance : g.stance = f.stance) :
    g.Inside origin := by
  obtain ⟨zone, depth, hBrackets, hDepth, hNest, hSettled⟩ := h.nest
  obtain ⟨zone', hNext, hNextSettled⟩ := Script.nestAt?_balanced hOrigin hPos h.behind hLe
    hDepth hNest hSettled hBalanced
  refine ⟨by rw [hStance, h.line], Nat.le_trans h.behind hLe, zone', depth, ?_, hDepth, ?_, ?_⟩
  · rw [hStance, hBrackets]
  · rw [hInvocation, hNext]
  · rw [hInvocation, hNextSettled]

/-- Behind a bare brace a dispatch is still inside, if its brackets count the brace as a block does and
some block is left open. -/
theorem Inside.behindBrace (h : f.Inside origin) (hOrigin : f.invocation.script.Valid origin)
    {scan : Scan (List Char)} (hScan : f.invocation.script.commandAt true f.pos = .ok scan)
    {brace : Char} (hValue : scan.value = [brace]) (hNotes : scan.notes = [])
    (hSize : brace.utf8Size = 1) (hStops : g.pos = scan.stop.pos)
    (hInvocation : g.invocation = f.invocation) (hLine : g.stance.line = f.stance.line)
    (hCounts : ∀ depth, f.stance.brackets = .event depth → 1 ≤ depth →
      ∃ depth', g.stance.brackets = .event depth' ∧ 1 ≤ depth' ∧
        ∀ follower, Script.nestStep .plain depth brace follower = some (.plain, depth')) :
    g.Inside origin := by
  obtain ⟨zone, depth, hBrackets, hDepth, hNest, hSettled⟩ := h.nest
  obtain ⟨depth', hBrackets', hDepth', hCounted⟩ := hCounts depth hBrackets hDepth
  obtain ⟨follower, hNext⟩ := Script.nestAt?_brace hOrigin h.behind hNest hSettled hScan hValue hNotes
    hSize
  have hLe := (Script.commandAt_onward hScan).le
  rw [Nat.min_eq_left (Script.commandAt_holds hScan).1.le_size] at hLe
  refine ⟨by rw [hLine, h.line], ?_, .plain, depth', hBrackets', hDepth', ?_, rfl⟩
  · rw [hStops]
    exact Nat.le_trans h.behind hLe
  · rw [hInvocation, hStops, hNext, hCounted]

end

end Frame

namespace Rules

variable {rules : Rules} {f g : Frame} {s t : Session}

/-- A step without a jump or a suppressed end of the event. -/
def StraightStep (rules : Rules) (x y : Frame × Session) : Prop :=
  rules.Step x y ∧ x.1.straight rules.registry = true

/-- A straight step that passes braces in order. -/
def OrderlyStep (rules : Rules) (x y : Frame × Session) : Prop :=
  rules.StraightStep x y ∧ x.1.orderly y.1 = true

theorem openEvent_ok {inv : Invocation} {p q : Progress}
    (h : Act.openEvent inv p = .ok true q) :
    ∃ opening, inv.script.commandAt true p.pos = .ok opening ∧ opening.value = ['\x7b'] ∧
      q.pos = opening.stop.pos := by
  unfold Act.openEvent at h
  rw [Act.bind_apply] at h
  rcases Act.command_cases true inv p with ⟨opening, log, hOpening, hRun⟩ | ⟨hRun, _⟩
  · rw [hRun] at h
    dsimp only at h
    by_cases hBrace : String.ofList opening.value = "\x7b"
    · rw [if_pos hBrace] at h
      cases h
      exact ⟨opening, hOpening, String.ofList_injective hBrace, rfl⟩
    · rw [if_neg hBrace, Act.bind_apply] at h
      split at h <;> cases h
  · rw [hRun] at h
    cases h

/-- Delivering an event to a script runs nothing but frames behind the brace of the event's block. -/
theorem deliverTo_congr {run run' : Frame → Action Verdict} (d : Delivery) (script : Script)
    (h : ∀ f, f.begins = true → f.invocation.script = script → f.invocation.event = d.event →
      run f = run' f) : rules.deliverTo run d script = rules.deliverTo run' d script := by
  unfold deliverTo
  cases hHeader : script.eventStart? d.event with
  | none => rfl
  | some header =>
      dsimp only
      congr 1
      funext s
      rw [Action.bind_apply, Action.bind_apply]
      cases hOpen : Frame.perform _ Act.openEvent s with
      | error halt t => rfl
      | ok result t =>
          obtain ⟨opened, g⟩ := result
          cases opened with
          | false => rfl
          | true =>
              obtain ⟨hAct, hInvocation, hStance⟩ := Frame.perform_ok hOpen
              obtain ⟨opening, hOpening, hBrace, hPos⟩ := openEvent_ok hAct
              simp only at hInvocation hStance hOpening hPos
              refine congrFun (h g ?_ (by rw [hInvocation]) (by rw [hInvocation])) t
              simp [Frame.begins, hStance, hInvocation, hHeader, hOpening, hBrace, hPos]

/-- Orderly steps keep a dispatch inside its block. -/
theorem OrderlyStep.inside (hRegistry : rules.registry.OfBuiltins) {origin : Nat}
    (hOrigin : f.invocation.script.Valid origin) (hStep : rules.OrderlyStep (f, s) (g, t))
    (hInside : f.Inside origin) : g.invocation = f.invocation ∧ g.Inside origin := by
  obtain ⟨⟨hStep, hStraight⟩, hOrderly⟩ := hStep
  obtain ⟨scan, hScan, hInvocation, hMoved⟩ := hStep.moved hRegistry
  refine ⟨hInvocation, ?_⟩
  have hWord : f.word? = some scan := by rw [Frame.word?, hScan]; rfl
  simp only [Frame.straight, Frame.orderly, hWord, Option.all_some] at hStraight hOrderly
  have hPos := (Script.commandAt_holds hScan).1
  have hOn := Script.commandAt_onward hScan
  rw [hInside.line, Bool.not_false] at hScan
  have hBrace (brace : Char) (hName : String.ofList scan.value = String.ofList [brace]) :
      scan.value = [brace] := String.ofList_injective hName
  cases hMoved with
  | passed hNoBrace hOnward hCalls hStance =>
      have hOther : ¬ (scan.value = ['\x7b'] ∨ scan.value = ['\x7d']) := by
        rintro (hValue | hValue)
        · exact hNoBrace.1 (by rw [hValue])
        · exact hNoBrace.2 (by rw [hValue])
      rw [if_neg (by simpa using hOther)] at hOrderly
      have hLe : f.pos ≤ g.pos := by
        have hRead := hOn.le
        have hGoesOn := hOnward.le
        have hSize := hPos.le_size
        omega
      exact hInside.over hOrigin hPos hLe hOrderly hInvocation hStance
  | opened hOpen hStops hCalls hStance =>
      have hValue := hBrace '\x7b' hOpen
      rw [if_pos (by simp [hValue]), List.isEmpty_iff] at hOrderly
      refine hInside.behindBrace hOrigin hScan hValue hOrderly rfl hStops hInvocation (by rw [hStance])
        fun depth hBrackets hDepth => ⟨depth + 1, ?_, by omega, fun _ => rfl⟩
      rw [hStance, hBrackets]
      rfl
  | closed hClose hLast hStops hCalls hStance =>
      have hValue := hBrace '\x7d' hClose
      rw [if_pos (by simp [hValue]), List.isEmpty_iff] at hOrderly
      refine hInside.behindBrace hOrigin hScan hValue hOrderly rfl hStops hInvocation (by rw [hStance])
        fun depth hBrackets hDepth => ?_
      -- The brace that closes the event's own block ends the dispatch, which then takes no step.
      have hDeep : ¬ depth ≤ 1 := by
        intro hOne
        have hEq : depth = 1 := by omega
        exact hLast (hEq ▸ hBrackets)
      refine ⟨depth - 1, ?_, by omega, fun _ => by simp [Script.nestStep, hDeep, Zone.after]⟩
      rw [hStance, hBrackets]
      rfl
  | resumed hClose hLast hResumes hStops hCalls hStance =>
      have hValue := hBrace '\x7d' hClose
      simp [hValue, hLast, hResumes] at hStraight
  | leapt c hCommand hName hLeap hStance =>
      simp only [hCommand, Option.all_some, Bool.and_eq_true] at hStraight
      simp [hName] at hStraight

end Rules

end EntityScript
