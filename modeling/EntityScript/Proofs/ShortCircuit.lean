import EntityScript.Script.Normal
import EntityScript.Proofs.Advance
import EntityScript.Proofs.Grammar

/-! Conditions are evaluated from left to right and no further than needed. What a condition comes to is
told by the formula that its text spells and by the answers of the comparisons that the evaluation
reaches; the others are read, but their operands are never looked at. -/
namespace EntityScript

/-- The place at an offset of a script; an offset beyond the end counts as the end. -/
def Script.placeAt (s : Script) (pos : Nat) : Place := ⟨min pos s.size, s.rest (min pos s.size)⟩

/-- Resolving the operands of a comparison, with the cursor behind it: its answer, or none if the
relation does not relate such operands, which is reported, or the halt that resolving them comes to. -/
inductive Comparison.Resolves (inv : Invocation) (c : Comparison) (p : Progress) :
    EStateM.Result Halt Progress (Option Bool) → Prop where
  | typed {t q : Progress} {a b : Act.Operand} {v : Bool}
      (hMet : Act.emit (Condition.unclosedNotes c.unclosed) inv p = .ok () t)
      (hOperands : Act.operands c inv { t with pos := c.stop } = .ok (a, b) q)
      (hHolds : Act.holds? q.session.world.entities inv.entity c.relation a b = some v) :
      Resolves inv c p (.ok (some v) q)
  | illTyped {t q r : Progress} {a b : Act.Operand}
      (hMet : Act.emit (Condition.unclosedNotes c.unclosed) inv p = .ok () t)
      (hOperands : Act.operands c inv { t with pos := c.stop } = .ok (a, b) q)
      (hHolds : Act.holds? q.session.world.entities inv.entity c.relation a b = none)
      (hWarned : Act.warn ("type mismatch in '" ++ c.left ++ " " ++ c.spelled ++ " " ++ c.right ++ "'")
        inv q = .ok () r) : Resolves inv c p (.ok none r)
  | halted {t q : Progress} {halt : Halt}
      (hMet : Act.emit (Condition.unclosedNotes c.unclosed) inv p = .ok () t)
      (hOperands : Act.operands c inv { t with pos := c.stop } = .error halt q) :
      Resolves inv c p (.error halt q)

theorem Comparison.resolves_some (c : Comparison) (inv : Invocation) (p : Progress) :
    ∃ result, c.Resolves inv p result := by
  obtain ⟨log, hMet⟩ := Act.Logs.emit (Condition.unclosedNotes c.unclosed) inv p
  cases hOperands : Act.operands c inv { p.read log p.pos with pos := c.stop } with
  | error halt q => exact ⟨_, .halted hMet hOperands⟩
  | ok operands q =>
      obtain ⟨a, b⟩ := operands
      cases hHolds : Act.holds? q.session.world.entities inv.entity c.relation a b with
      | some v => exact ⟨_, .typed hMet hOperands hHolds⟩
      | none =>
          obtain ⟨log, hWarned⟩ := Act.Logs.warn
            ("type mismatch in '" ++ c.left ++ " " ++ c.spelled ++ " " ++ c.right ++ "'") inv q
          exact ⟨_, .illTyped hMet hOperands hHolds hWarned⟩

namespace Formula

mutual

/-- Evaluating the formula from left to right reaches comparisons with the listed answers, one after
the other, and comes to the result; a comparison without an answer counts as false. -/
inductive Evaluates (inv : Invocation) :
    Formula → Progress → List (Option Bool) → EStateM.Result Halt Progress Bool → Prop where
  | comparison {c : Comparison} {p q : Progress} {answer : Option Bool}
      (hResolves : c.Resolves inv p (.ok answer q)) :
      Evaluates inv (.comparison c) p [answer] (.ok (answer.getD false) q)
  | comparisonHalts {c : Comparison} {p q : Progress} {halt : Halt}
      (hResolves : c.Resolves inv p (.error halt q)) :
      Evaluates inv (.comparison c) p [] (.error halt q)
  | negation {f : Formula} {p q : Progress} {answers : List (Option Bool)} {v : Bool}
      (hInner : Evaluates inv f p answers (.ok v q)) :
      Evaluates inv (.negation f) p answers (.ok (!v) q)
  | negationHalts {f : Formula} {p q : Progress} {answers : List (Option Bool)} {halt : Halt}
      (hInner : Evaluates inv f p answers (.error halt q)) :
      Evaluates inv (.negation f) p answers (.error halt q)
  | junction {all : Bool} {fs : List Formula} {p : Progress} {answers : List (Option Bool)}
      {result : EStateM.Result Halt Progress Bool}
      (hParts : EvaluatesParts inv all fs p answers result) :
      Evaluates inv (.junction all fs) p answers result

/-- The same for all or any of several formulas. The first one that decides is the last to be
evaluated. -/
inductive EvaluatesParts (inv : Invocation) :
    Bool → List Formula → Progress → List (Option Bool) → EStateM.Result Halt Progress Bool →
      Prop where
  | undecided (all : Bool) (p : Progress) : EvaluatesParts inv all [] p [] (.ok all p)
  | decided {all : Bool} {f : Formula} {fs : List Formula} {p q : Progress}
      {answers : List (Option Bool)} (hPart : Evaluates inv f p answers (.ok (!all) q)) :
      EvaluatesParts inv all (f :: fs) p answers (.ok (!all) q)
  | next {all : Bool} {f : Formula} {fs : List Formula} {p q : Progress}
      {answers others : List (Option Bool)} {result : EStateM.Result Halt Progress Bool}
      (hPart : Evaluates inv f p answers (.ok all q))
      (hOthers : EvaluatesParts inv all fs q others result) :
      EvaluatesParts inv all (f :: fs) p (answers ++ others) result
  | halts {all : Bool} {f : Formula} {fs : List Formula} {p q : Progress}
      {answers : List (Option Bool)} {halt : Halt}
      (hPart : Evaluates inv f p answers (.error halt q)) :
      EvaluatesParts inv all (f :: fs) p answers (.error halt q)

end

variable {inv : Invocation}

mutual

/-- Evaluating a formula comes to some result. -/
theorem evaluates_some (inv : Invocation) (f : Formula) (p : Progress) :
    ∃ answers result, f.Evaluates inv p answers result := by
  cases f with
  | comparison c =>
      obtain ⟨result, hResolves⟩ := c.resolves_some inv p
      cases result with
      | ok answer q => exact ⟨_, _, .comparison hResolves⟩
      | error halt q => exact ⟨_, _, .comparisonHalts hResolves⟩
  | negation f =>
      obtain ⟨answers, result, hInner⟩ := evaluates_some inv f p
      cases result with
      | ok v q => exact ⟨_, _, .negation hInner⟩
      | error halt q => exact ⟨_, _, .negationHalts hInner⟩
  | junction all fs =>
      obtain ⟨answers, result, hParts⟩ := evaluatesParts_some inv all fs p
      exact ⟨_, _, .junction hParts⟩

theorem evaluatesParts_some (inv : Invocation) (all : Bool) (fs : List Formula) (p : Progress) :
    ∃ answers result, EvaluatesParts inv all fs p answers result := by
  cases fs with
  | nil => exact ⟨_, _, .undecided all p⟩
  | cons f fs =>
      obtain ⟨answers, result, hPart⟩ := evaluates_some inv f p
      cases result with
      | error halt q => exact ⟨_, _, .halts hPart⟩
      | ok v q =>
          obtain rfl | rfl : v = all ∨ v = !all := by cases v <;> cases all <;> simp
          · obtain ⟨others, result, hOthers⟩ := evaluatesParts_some inv v fs q
            exact ⟨_, _, .next hPart hOthers⟩
          · exact ⟨_, _, .decided hPart⟩

end

end Formula

namespace Act

variable {inv : Invocation} {p : Progress}

/-- The same result with another value. -/
def withValue {α β : Type} (g : α → β) :
    EStateM.Result Halt Progress α → EStateM.Result Halt Progress β
  | .ok a q => .ok (g a) q
  | .error halt q => .error halt q

/-- Comparing gives the answer of the comparison; without one it counts as false. -/
theorem compare_resolves {c : Comparison} {result : EStateM.Result Halt Progress (Option Bool)}
    (h : c.Resolves inv p result) :
    compare c inv p = withValue (fun answer => ⟨answer.getD false, answer.isSome⟩) result := by
  unfold compare
  cases h with
  | typed hMet hOperands hHolds =>
      rw [bind_apply, hMet]
      change (operands c >>= _) inv _ = _
      rw [bind_apply, hOperands]
      dsimp only
      rw [world_bind, invocation_bind, hHolds]
      rfl
  | illTyped hMet hOperands hHolds hWarned =>
      rw [bind_apply, hMet]
      change (operands c >>= _) inv _ = _
      rw [bind_apply, hOperands]
      dsimp only
      rw [world_bind, invocation_bind, hHolds]
      dsimp only
      rw [bind_apply, hWarned]
      rfl
  | halted hMet hOperands =>
      rw [bind_apply, hMet]
      change (operands c >>= _) inv _ = _
      rw [bind_apply, hOperands]
      rfl

/-- Parts behind one that decides are passed. -/
theorem judgeParts_decided (all sound : Bool) {fs : List Formula}
    (hSilent : Condition.notes.allNotes (Formula.condition.conditions fs) = []) :
    judgeParts all ⟨!all, sound⟩ (Formula.condition.conditions fs) inv p =
      .ok (some ⟨!all, sound⟩) p := by
  induction fs with
  | nil => rfl
  | cons f fs ih =>
      obtain ⟨hPart, hOthers⟩ := List.append_eq_nil_iff.mp hSilent
      rw [Formula.condition.conditions, judgeParts, if_neg (by simp), hPart, f.condition_breaks]
      exact ih hOthers

mutual

/-- Judging a formula comes to the result of its evaluation. -/
theorem judge_evaluates {f : Formula} {p : Progress} {answers : List (Option Bool)}
    {result : EStateM.Result Halt Progress Bool} (h : f.Evaluates inv p answers result)
    (hSilent : (∃ c, f = .comparison c) ∨ f.condition.notes = []) :
    judge f.condition inv p = withValue (fun v => some ⟨v, answers.all Option.isSome⟩) result := by
  cases f with
  | comparison c =>
      rw [Formula.condition, judge, bind_apply]
      cases h with
      | comparison hResolves =>
          rw [compare_resolves hResolves]
          simp only [withValue, List.all_cons, List.all_nil, Bool.and_true]
          rfl
      | comparisonHalts hResolves =>
          rw [compare_resolves hResolves]
          rfl
  | negation f =>
      have hInnerSilent : f.condition.notes = [] := hSilent.resolve_left fun ⟨_, h⟩ => nomatch h
      rw [Formula.condition, judge, bind_apply]
      cases h with
      | negation hInner =>
          rw [judge_evaluates hInner (.inr hInnerSilent)]
          rfl
      | negationHalts hInner =>
          rw [judge_evaluates hInner (.inr hInnerSilent)]
          rfl
  | junction all fs =>
      have hPartsSilent : Condition.notes.allNotes (Formula.condition.conditions fs) = [] :=
        hSilent.resolve_left fun ⟨_, h⟩ => nomatch h
      rw [Formula.condition, judge]
      cases h with
      | junction hParts =>
          rw [judgeParts_evaluates hParts hPartsSilent true, Bool.true_and]

theorem judgeParts_evaluates {all : Bool} {fs : List Formula} {p : Progress}
    {answers : List (Option Bool)} {result : EStateM.Result Halt Progress Bool}
    (h : Formula.EvaluatesParts inv all fs p answers result)
    (hSilent : Condition.notes.allNotes (Formula.condition.conditions fs) = []) (sound : Bool) :
    judgeParts all ⟨all, sound⟩ (Formula.condition.conditions fs) inv p =
      withValue (fun v => some ⟨v, sound && answers.all Option.isSome⟩) result := by
  cases fs with
  | nil =>
      cases h with
      | undecided =>
          rw [Formula.condition.conditions, judgeParts, List.all_nil, Bool.and_true]
          rfl
  | cons f fs =>
      obtain ⟨hPartSilent, hOthersSilent⟩ := List.append_eq_nil_iff.mp hSilent
      rw [Formula.condition.conditions, judgeParts, if_pos rfl, bind_apply]
      cases h with
      | decided hPart =>
          rw [judge_evaluates hPart (.inr hPartSilent)]
          exact judgeParts_decided all _ hOthersSilent
      | next hPart hOthers =>
          rw [judge_evaluates hPart (.inr hPartSilent)]
          rw [List.all_append, ← Bool.and_assoc]
          exact judgeParts_evaluates hOthers hOthersSilent _
      | halts hPart =>
          rw [judge_evaluates hPart (.inr hPartSilent)]
          rfl

end

/-- The act comes to a value with `P`, unless resolving the operands of a comparison halts. -/
def Barring {α : Type} (inv : Invocation) (P : α → Prop) (act : Act α) : Prop :=
  ∀ p, match act inv p with
    | .ok a _ => P a
    | .error halt q => ∃ c t, operands c inv t = .error halt q

namespace Barring

variable {α β : Type} {P : α → Prop} {P' : β → Prop}

theorem pure {a : α} (ha : P a) : Barring inv P (Pure.pure a : Act α) := fun _ => ha

theorem bind {x : Act α} {f : α → Act β} (hx : Barring inv P x)
    (hf : ∀ a, P a → Barring inv P' (f a)) : Barring inv P' (x >>= f) := by
  intro p
  have hFirst := hx p
  rw [bind_apply]
  generalize x inv p = result at hFirst
  cases result with
  | ok a q => exact hf a hFirst q
  | error halt q => exact hFirst

theorem mono {Q : α → Prop} {x : Act α} (hx : Barring inv P x) (h : ∀ a, P a → Q a) :
    Barring inv Q x := by
  intro p
  have hResult := hx p
  generalize x inv p = result at hResult ⊢
  cases result with
  | ok a q => exact h a hResult
  | error halt q => exact hResult

theorem emit (notes : List Note) : Barring inv (fun _ => True) (Act.emit notes) := by
  intro p
  obtain ⟨log, hLog⟩ := Logs.emit notes inv p
  rw [hLog]
  exact True.intro

theorem compare (c : Comparison) : Barring inv (fun _ => True) (Act.compare c) := by
  intro p
  obtain ⟨result, hResolves⟩ := c.resolves_some inv p
  rw [compare_resolves hResolves]
  cases hResolves with
  | typed => exact True.intro
  | illTyped => exact True.intro
  | halted _ hOperands => exact ⟨c, _, hOperands⟩

mutual

/-- Nothing comes of a condition whose reading broke off. -/
theorem judge (c : Condition) :
    Barring inv (fun j => j.isSome = true → c.breaks = false) (Act.judge c) := by
  cases c with
  | comparison c => exact (compare c).bind fun _ _ => .pure fun _ => rfl
  | negation inner =>
      refine (judge inner).bind fun j hj => .pure fun hSome => hj ?_
      rwa [Option.isSome_map] at hSome
  | junction all parts => exact judgeParts all _ parts
  | broken b => exact (emit _).bind fun _ _ => .pure fun hSome => nomatch hSome
  | cut inner b =>
      apply (judge inner).bind
      intro j _
      split
      · exact (emit _).bind fun _ _ => .pure fun hSome => nomatch hSome
      · exact .pure fun hSome => nomatch hSome

theorem judgeParts (all : Bool) (sofar : Judgement) (parts : List Condition) :
    Barring inv (fun j => j.isSome = true → Condition.breaks.anyBreaks parts = false)
      (Act.judgeParts all sofar parts) := by
  cases parts with
  | nil => exact .pure fun _ => rfl
  | cons c cs =>
      rw [Act.judgeParts]
      split
      · apply (judge c).bind
        intro j hj
        cases j with
        | none => exact .pure fun hSome => nomatch hSome
        | some j =>
            exact (judgeParts all _ cs).mono fun _ hOthers hSome =>
              Bool.or_eq_false_iff.mpr ⟨hj rfl, hOthers hSome⟩
      · apply (emit _).bind
        intro _ _
        split
        · exact .pure fun hSome => nomatch hSome
        · rename_i hWhole
          exact (judgeParts all sofar cs).mono fun _ hOthers hSome =>
            Bool.or_eq_false_iff.mpr ⟨Bool.not_eq_true _ ▸ hWhole, hOthers hSome⟩

end

end Barring

/-- Evaluating the condition at the cursor is judging what is read there and moving behind it. -/
theorem condition_eq (inv : Invocation) (p : Progress) :
    condition inv p =
      match judge (Condition.read (inv.script.placeAt p.pos)).1 inv
          { p with pos := (inv.script.placeAt p.pos).pos } with
      | .ok j q => .ok (j.bind fun j => if j.sound then some j.value else none)
          { q with pos := (Condition.read (inv.script.placeAt p.pos)).2.pos }
      | .error halt q => .error halt q := by
  let scanned := Condition.read (inv.script.placeAt p.pos)
  change (judge scanned.1 >>= fun judgement =>
    modify (fun q => { q with pos := scanned.2.pos }) >>= fun _ =>
      Pure.pure (judgement.bind fun j => if j.sound then some j.value else none)) inv
    { p with pos := (inv.script.placeAt p.pos).pos } = _
  rw [bind_apply]
  cases judge scanned.1 inv { p with pos := (inv.script.placeAt p.pos).pos } <;> rfl

theorem all_isSome_iff (answers : List (Option Bool)) :
    answers.all Option.isSome = true ↔ none ∉ answers := by
  induction answers with
  | nil => simp
  | cons answer answers ih => cases answer <;> simp [ih]

/-- What a condition comes to where evaluating its formula has such answers and such a result. -/
def concluded (answers : List (Option Bool)) (stop : Place) :
    EStateM.Result Halt Progress Bool → EStateM.Result Halt Progress (Option Bool)
  | .ok v q => .ok (if none ∈ answers then none else some v) { q with pos := stop.pos }
  | .error halt q => .error halt q

/-- The condition of a formula comes to what the evaluation of the formula does. -/
theorem condition_spelled {f : Formula} {stop : Place} {answers : List (Option Bool)}
    {result : EStateM.Result Halt Progress Bool}
    (hSpelled : f.Spelled (inv.script.placeAt p.pos) stop)
    (h : f.Evaluates inv { p with pos := (inv.script.placeAt p.pos).pos } answers result) :
    condition inv p = concluded answers stop result := by
  rw [condition_eq, Condition.read_spelled hSpelled, judge_evaluates h hSpelled.comparison_or_notes]
  cases result with
  | error halt q => rfl
  | ok v q =>
      by_cases hNone : none ∈ answers
      · have hSound : answers.all Option.isSome = false := by
          rw [← Bool.not_eq_true, all_isSome_iff]
          exact not_not_intro hNone
        rw [hSound, concluded, if_pos hNone]
        rfl
      · rw [(all_isSome_iff answers).mpr hNone, concluded, if_neg hNone]
        rfl

/-- Nothing comes of a text that spells no formula. -/
theorem condition_unspelled (hNone : ∀ f stop, ¬ Formula.Spelled f (inv.script.placeAt p.pos) stop) :
    match condition inv p with
      | .ok r _ => r = none
      | .error halt q => ∃ c t, operands c inv t = .error halt q := by
  have hJudge := (Barring.judge (Condition.read (inv.script.placeAt p.pos)).1 : Barring inv _ _)
    { p with pos := (inv.script.placeAt p.pos).pos }
  rw [condition_eq]
  generalize judge (Condition.read (inv.script.placeAt p.pos)).1 inv
    { p with pos := (inv.script.placeAt p.pos).pos } = result at hJudge
  cases result with
  | error halt q => exact hJudge
  | ok j q =>
      have hNothing : j = none := by
        rw [← Option.not_isSome_iff_eq_none]
        intro hSome
        have hWhole := hJudge hSome
        rw [Condition.read_breaks hNone] at hWhole
        cases hWhole
      rw [hNothing]
      rfl

/-- What the evaluation of a condition comes to. Where the text spells a formula, it gives the value of
the formula if every comparison that it reaches is well typed, and nothing otherwise; it stops behind
the formula, and apart from that only resolving the comparisons that it reaches shows afterwards. Where
the text spells none, nothing comes of it. It halts only where resolving operands does. -/
theorem condition_shortCircuits (inv : Invocation) (p : Progress) :
    (∀ f stop, Formula.Spelled f (inv.script.placeAt p.pos) stop →
      (∀ r q, condition inv p = .ok r q ↔ ∃ answers v t,
        f.Evaluates inv { p with pos := (inv.script.placeAt p.pos).pos } answers (.ok v t) ∧
        r = (if none ∈ answers then none else some v) ∧ q = { t with pos := stop.pos }) ∧
      (∀ halt q, condition inv p = .error halt q ↔ ∃ answers,
        f.Evaluates inv { p with pos := (inv.script.placeAt p.pos).pos } answers (.error halt q))) ∧
    ((∀ f stop, ¬ Formula.Spelled f (inv.script.placeAt p.pos) stop) →
      (∀ r q, condition inv p = .ok r q → r = none) ∧
      (∀ halt q, condition inv p = .error halt q → ∃ c t, operands c inv t = .error halt q)) := by
  constructor
  · intro f stop hSpelled
    obtain ⟨answers, result, hEvaluates⟩ := f.evaluates_some inv
      { p with pos := (inv.script.placeAt p.pos).pos }
    have hCondition := condition_spelled hSpelled hEvaluates
    constructor
    · intro r q
      constructor
      · intro h
        rw [hCondition] at h
        cases result with
        | ok v t =>
            cases h
            exact ⟨answers, v, t, hEvaluates, rfl, rfl⟩
        | error halt t => cases h
      · rintro ⟨answers, v, t, hOk, rfl, rfl⟩
        exact condition_spelled hSpelled hOk
    · intro halt q
      constructor
      · intro h
        rw [hCondition] at h
        cases result with
        | ok v t => cases h
        | error halt t =>
            cases h
            exact ⟨answers, hEvaluates⟩
      · rintro ⟨answers, hError⟩
        exact condition_spelled hSpelled hError
  · intro hNone
    have hUnspelled := condition_unspelled hNone
    constructor
    · intro r q h
      rw [h] at hUnspelled
      exact hUnspelled
    · intro halt q h
      rw [h] at hUnspelled
      exact hUnspelled

/-- A condition with two comparisons that ask for a random number. -/
def guardedInvocation : Invocation :=
  { script := .ofNormal "guarded" "(or(and(abc == b, ^rnd_9 == 3), a == a, ^rnd_9 == 3)) \x7b"
    entity := ⟨0⟩, event := .fixed .init }

/-- The start of its evaluation. -/
def guardedStart : Progress := ⟨⟨.ofConfig { seed := some 0 }, .silent, #[]⟩, 0, []⟩

set_option maxRecDepth 100000 in
/-- It holds, every comparison that is reached is well typed, and no random number is drawn. -/
theorem condition_shortCircuits_guarded :
    ∃ f stop answers t, Formula.Spelled f (guardedInvocation.script.placeAt 0) stop ∧
      f.Evaluates guardedInvocation guardedStart answers (.ok true t) ∧ none ∉ answers ∧
      t.session.world.random = guardedStart.session.world.random := by
  have hWhole : (Condition.read (guardedInvocation.script.placeAt 0)).1.breaks = false := by
    decide +kernel
  obtain ⟨f, stop, -, hSpelled⟩ := Condition.spelled_of_readItem hWhole
  have hRun : (match condition guardedInvocation guardedStart with
      | .ok r q => decide (r = some true ∧
        q.session.world.random = guardedStart.session.world.random)
      | .error _ _ => false) = true := by decide +kernel
  split at hRun
  · rename_i r q hCondition
    obtain ⟨rfl, hRandom⟩ := of_decide_eq_true hRun
    obtain ⟨answers, v, t, hEvaluates, hValue, rfl⟩ :=
      (((condition_shortCircuits guardedInvocation guardedStart).1 f stop hSpelled).1 _ _).mp hCondition
    split at hValue
    · cases hValue
    · rename_i hSound
      cases hValue
      exact ⟨f, stop, answers, t, hSpelled, hEvaluates, hSound, hRandom⟩
  · cases hRun

end Act

end EntityScript
