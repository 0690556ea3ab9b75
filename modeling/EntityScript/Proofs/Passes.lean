import EntityScript.Proofs.Grammar
import EntityScript.Proofs.Nesting
import EntityScript.Proofs.Runs

/-! What a pass of the loop of a dispatch does to its cursor. What is scanned on the way comes to its
end. Then the pass ends the dispatch, jumps, or moves the cursor on, whatever becomes of the event that it
sends; without `goto` and `gosub` there is nothing to return to, and no jump is left. -/
namespace EntityScript

namespace Condition

/-- Reading goes into what is behind a token only, so it is the same with any fuel that does there. -/
theorem readItem_congr {fuel fuel' : Nat} {p : Place}
    (hItem : ∀ q : Place, q.rest.length < p.rest.length → readItem fuel q = readItem fuel' q)
    (hParts : ∀ q : Place, q.rest.length < p.rest.length → readParts fuel q = readParts fuel' q) :
    readItem (fuel + 1) p = readItem (fuel' + 1) p := by
  rw [readItem, readItem]
  dsimp only
  cases hToken : (Script.nextToken p).token with
  | opening =>
      have hShorter := Place.Lexes.shortens (p := p) ⟨hToken, rfl⟩ (by simp) (by simp)
      dsimp only
      rw [hItem _ hShorter]
  | word w =>
      cases hConnective : Connective.parse? w with
      | none => simp only [hConnective]
      | some connective =>
          simp only [hConnective]
          split
          · rename_i hOpen
            have hBehind := Place.Lexes.length_le (p := p) ⟨hToken, rfl⟩
            have hShorter := Place.Lexes.shortens (p := (Script.nextToken p).next) ⟨hOpen, rfl⟩
              (by simp) (by simp)
            have hInside := Nat.lt_of_lt_of_le hShorter hBehind
            rw [hItem _ hInside, hParts _ hInside]
          · rfl
  | closing => rfl
  | separator => rfl
  | stop => rfl

theorem readParts_congr {fuel fuel' : Nat} {p : Place} (hItem : readItem fuel p = readItem fuel' p)
    (hParts : ∀ q : Place, q.rest.length < p.rest.length → readParts fuel q = readParts fuel' q) :
    readParts (fuel + 1) p = readParts (fuel' + 1) p := by
  rw [readParts, readParts, hItem]
  have hBehind := (readItem_reaches fuel' p).suffix.length_le
  generalize readItem fuel' p = read at hBehind ⊢
  obtain ⟨c, q⟩ := read
  dsimp only at hBehind ⊢
  split
  · rfl
  · cases hToken : (Script.nextToken q).token with
    | separator =>
        have hShorter := Place.Lexes.shortens (p := q) ⟨hToken, rfl⟩ (by simp) (by simp)
        dsimp only
        rw [hParts _ (Nat.lt_of_lt_of_le hShorter hBehind)]
    | closing => rfl
    | opening => rfl
    | word w => rfl
    | stop => rfl

/-- Reading does not use up fuel for what is left of the text: each condition inside another one and
each list is behind a parenthesis or a separator. -/
theorem read_enough (n : Nat) : ∀ p : Place, p.rest.length = n →
    (∀ fuel fuel', 2 * n + 1 ≤ fuel → 2 * n + 1 ≤ fuel' → readItem fuel p = readItem fuel' p) ∧
    (∀ fuel fuel', 2 * n + 2 ≤ fuel → 2 * n + 2 ≤ fuel' → readParts fuel p = readParts fuel' p) := by
  induction n using Nat.strongRecOn with
  | ind n ih =>
      rintro p rfl
      have hItem (fuel fuel' : Nat) (hFuel : 2 * p.rest.length + 1 ≤ fuel)
          (hFuel' : 2 * p.rest.length + 1 ≤ fuel') : readItem fuel p = readItem fuel' p := by
        obtain ⟨k, rfl⟩ : ∃ k, fuel = k + 1 := ⟨fuel - 1, by omega⟩
        obtain ⟨k', rfl⟩ : ∃ k', fuel' = k' + 1 := ⟨fuel' - 1, by omega⟩
        exact readItem_congr (fun q hq => (ih _ hq q rfl).1 k k' (by omega) (by omega))
          fun q hq => (ih _ hq q rfl).2 k k' (by omega) (by omega)
      refine ⟨hItem, fun fuel fuel' hFuel hFuel' => ?_⟩
      obtain ⟨k, rfl⟩ : ∃ k, fuel = k + 1 := ⟨fuel - 1, by omega⟩
      obtain ⟨k', rfl⟩ : ∃ k', fuel' = k' + 1 := ⟨fuel' - 1, by omega⟩
      exact readParts_congr (hItem k k' (by omega) (by omega))
        fun q hq => (ih _ hq q rfl).2 k k' (by omega) (by omega)

end Condition

namespace Script

/-- A word that is there ends behind the place that it is looked for at, inside the text. -/
theorem commandAt_lt {s : Script} {lines : Bool} {pos : Nat} {scan : Scan (List Char)}
    (h : s.commandAt lines pos = .ok scan) (hValue : scan.value ≠ []) :
    pos < scan.stop.pos ∧ scan.stop.pos ≤ s.size := by
  refine ⟨?_, (commandAt_holds h).2.valid.le_size⟩
  have hGaps := (skipGaps_reaches lines false pos (s.rest pos)).le
  rw [commandAt_eq h] at hValue ⊢
  obtain ⟨c, _, _, hBegins, _⟩ := commandWord_begins hValue
  have hSize : 0 < c.utf8Size := Char.utf8Size_pos c
  dsimp only at hGaps
  omega

/-- Passing over a statement goes into statements further on only. -/
theorem skipStatement_congr {s : Script} {fuel fuel' pos : Nat}
    (h : ∀ q, pos < q → q ≤ s.size → s.skipStatement fuel q = s.skipStatement fuel' q) :
    s.skipStatement (fuel + 1) pos = s.skipStatement (fuel' + 1) pos := by
  have hGaps := skipGaps_reaches true false pos (s.rest pos)
  have hBegins := hGaps.le
  dsimp only at hBegins
  rw [skipStatement, skipStatement]
  dsimp only
  split
  · rfl
  rename_i c cs hRest
  split
  · rfl
  split
  · rename_i hIf
    have hValid : s.Valid pos := by
      by_cases hValid : s.Valid pos
      · exact hValid
      · have hNone : s.from? pos = none := by simpa [Valid] using hValid
        simp [rest, hNone, skipGaps] at hRest
    have hWord := hGaps.trans (commandWord_reaches _ _)
    have hBody := hWord.trans (Condition.read_reaches _)
    have hBehind := (Condition.read_reaches (commandWord (skipGaps true false pos (s.rest pos)).1.pos
      (skipGaps true false pos (s.rest pos)).1.rest).stop).le
    obtain ⟨first, _, _, hFirst, _⟩ := commandWord_begins (by rw [hIf]; exact List.cons_ne_nil _ _)
    have hOne : 0 < first.utf8Size := Char.utf8Size_pos first
    generalize Condition.read (commandWord (skipGaps true false pos (s.rest pos)).1.pos
      (skipGaps true false pos (s.rest pos)).1.rest).stop = read at hBody hBehind ⊢
    obtain ⟨condition, body⟩ := read
    have hHolds := hValid.holds.reaches hBody
    have hSize := hHolds.valid.le_size
    dsimp only at hBehind hSize ⊢
    rw [h body.pos (by omega) hSize]
    cases hSkip : s.skipStatement fuel' body.pos with
    | error f => rfl
    | ok passed =>
        have hAfter := (skipStatement_onward hSkip).le
        cases hFollower : s.commandAt true passed.1 with
        | error f => simp only [bind, Except.bind, hFollower]
        | ok follower =>
            have hOn := (commandAt_onward hFollower).le
            have hPlace := commandAt_holds hFollower
            have hLast := hPlace.1.le_size
            simp only [bind, Except.bind, hFollower]
            rw [h follower.stop.pos (by omega) hPlace.2.valid.le_size]
  · rfl

/-- Passing over a statement does not use up fuel for all bytes of the script. -/
theorem skipStatement_enough {s : Script} {fuel fuel' pos : Nat} (hSome : 0 < fuel)
    (hFuel : s.size < fuel + pos) (hSome' : 0 < fuel') (hFuel' : s.size < fuel' + pos) :
    s.skipStatement fuel pos = s.skipStatement fuel' pos := by
  induction fuel generalizing fuel' pos with
  | zero => omega
  | succ fuel ih =>
      obtain ⟨fuel', rfl⟩ : ∃ k, fuel' = k + 1 := ⟨fuel' - 1, by omega⟩
      exact skipStatement_congr fun q hq hSize =>
        ih (by omega) (by omega) (by omega) (by omega)

end Script

namespace Command

/-- `return` has no side effects, and any entity may give it. -/
theorem return_eq {c : Command} (h : c ∈ builtins) (hName : c.name = "return") :
    c.requires = [] ∧ c.harmless = true ∧ c.run = runReturn := by
  have hFlow := mem_flow jumps (by decide) h (hName ▸ by decide)
  simp only [flow, List.mem_cons, List.not_mem_nil, or_false] at hFlow
  rcases hFlow with rfl | rfl | rfl | rfl | rfl | rfl | rfl | rfl
  all_goals first | exact ⟨rfl, rfl, rfl⟩ | exact absurd hName (by decide)

end Command

namespace Act

variable {registry : Registry} {stance : Stance} {inv : Invocation} {p : Progress}
  {scan : Scan (List Char)}

/-- A turn reads its word and goes by it. -/
theorem turn_read (hScan : inv.script.commandAt (!stance.line) p.pos = .ok scan) :
    ∃ log, turn registry stance inv p =
      (if String.ofList scan.value = "" then do
        unless stance.line do warn "missing '\x7d' before end of script"
        return .finish .accept
      else do
        announce (String.ofList scan.value)
        follow registry stance (String.ofList scan.value) : Act Turn) inv
        (p.read log scan.stop.pos) := by
  rcases command_cases (!stance.line) inv p with ⟨scan', log, hScan', hRun⟩ | ⟨_, hInvalid⟩
  · obtain rfl := Except.ok.inj (hScan.symm.trans hScan')
    exact ⟨log, by rw [turn, bind_apply, hRun]⟩
  · exact absurd (Script.commandAt_holds hScan).1 hInvalid

/-- Without a word the turn ends the dispatch. -/
theorem turn_blank (hScan : inv.script.commandAt (!stance.line) p.pos = .ok scan)
    (hValue : scan.value = []) : ∃ q, turn registry stance inv p = .ok (.finish .accept) q := by
  obtain ⟨log, hTurn⟩ := @turn_read registry _ _ _ _ hScan
  rw [hTurn, hValue, if_pos rfl]
  split
  · exact ⟨_, rfl⟩
  · obtain ⟨log', hWarn⟩ := Logs.warn "missing '\x7d' before end of script" inv
      (p.read log scan.stop.pos)
    exact ⟨_, by rw [bind_apply, hWarn]; rfl⟩

theorem mayGive_free {c : Command} (hRequires : c.requires = []) :
    mayGive c inv p = .ok true p := by
  unfold mayGive
  rw [hRequires]
  rfl

theorem runReturn_stray (hCalls : p.calls = []) :
    ∃ q, Command.runReturn inv p = .ok (.finish .error) q := by
  have hBack : comeBack inv p = .ok false p := by
    rw [comeBack, get_bind, hCalls]
    rfl
  obtain ⟨log, hError⟩ := Logs.error "return without gosub" inv p
  refine ⟨p.read log p.pos, ?_⟩
  rw [Command.runReturn, bind_apply, hBack]
  dsimp only
  rw [if_neg Bool.false_ne_true, bind_apply, hError]
  rfl

/-- Without a return point `return` ends the dispatch. -/
theorem turn_return {c : Command} (hCommand : c ∈ Command.builtins) (hName : c.name = "return")
    (hFind : registry.find? (String.ofList scan.value) = some c)
    (hScan : inv.script.commandAt (!stance.line) p.pos = .ok scan) (hValue : scan.value ≠ [])
    (hCalls : p.calls = []) : ∃ q, turn registry stance inv p = .ok (.finish .error) q := by
  obtain ⟨log, hTurn⟩ := @turn_read registry _ _ _ _ hScan
  have hWord : String.ofList scan.value ≠ "" := fun hNone =>
    hValue (by simpa using congrArg String.toList hNone)
  obtain ⟨log', hAnnounce⟩ := announce_logs (String.ofList scan.value) inv
    (p.read log scan.stop.pos)
  obtain ⟨hRequires, hHarmless, hRun⟩ := Command.return_eq hCommand hName
  let here := p.read log scan.stop.pos
  obtain ⟨q, hReturn⟩ := @runReturn_stray inv (here.read log' here.pos) hCalls
  have hObey : obey c (String.ofList scan.value) inv (here.read log' here.pos) =
      .ok (.finish .error) q := by
    rw [obey, bind_apply, mayGive_free hRequires]
    dsimp only
    rw [if_pos rfl, invocation_bind, hHarmless, Bool.not_true, Bool.and_false,
      if_neg Bool.false_ne_true, hRun, hReturn]
  refine ⟨q, ?_⟩
  rw [hTurn, if_neg hWord, bind_apply, hAnnounce, follow, hFind]
  dsimp only
  rw [bind_apply, hObey]
  rfl

end Act

/-- An act that fails only with excuses fails with a fault. -/
theorem Frame.perform_fault {α : Type} {act : Act α} {f : Frame} {start : Progress} {s t : Session}
    {halt : Halt} {P : α → Progress → Prop}
    (hEnds : Act.Ends f.invocation start act ⟨s, f.pos, f.calls⟩ P)
    (h : f.perform act s = .error halt t) : ∃ x, halt = .fault x := by
  unfold perform at h
  unfold Act.Ends at hEnds
  cases hRun : act f.invocation ⟨s, f.pos, f.calls⟩ with
  | ok a p =>
      rw [hRun] at h
      cases h
  | error halt' p =>
      rw [hRun] at h hEnds
      cases h
      rcases hEnds.1 with ⟨rfl, _⟩ | ⟨rfl, _⟩
      · exact ⟨_, rfl⟩
      · exact ⟨_, rfl⟩

/-- Unless it jumps, a dispatch goes on behind its word and keeps the return points. -/
theorem Frame.Moved.behind {registry : Registry} {f g : Frame} {word : String} {stop : Nat}
    (h : f.Moved registry word stop g) (hStop : stop ≤ f.invocation.script.size) :
    (stop ≤ g.pos ∧ g.calls = f.calls) ∨ ∃ c, registry.find? word = some c ∧
      c.name ∈ Command.jumps ∧ Act.Leap f.invocation.script stop f.calls g.pos g.calls := by
  cases h with
  | passed _ hOn hCalls =>
      have hLe := hOn.le
      exact .inl ⟨by omega, hCalls⟩
  | opened _ hPos hCalls => exact .inl ⟨Nat.le_of_eq hPos.symm, hCalls⟩
  | closed _ _ hPos hCalls => exact .inl ⟨Nat.le_of_eq hPos.symm, hCalls⟩
  | resumed _ _ _ hPos hCalls => exact .inl ⟨Nat.le_of_eq hPos.symm, hCalls⟩
  | leapt c hCommand hName hLeap => exact .inr ⟨c, hCommand, hName, hLeap⟩

namespace Rules

variable {rules : Rules}

/-- The word that is read denotes a jump, and the cursor goes to a label or to a return point. -/
def Jumps (rules : Rules) (f g : Frame) : Prop :=
  ∃ scan c, f.invocation.script.commandAt (!f.stance.line) f.pos = .ok scan ∧
    rules.registry.find? (String.ofList scan.value) = some c ∧ c.name ∈ Command.jumps ∧
    Act.Leap f.invocation.script scan.stop.pos f.calls g.pos g.calls

/-- What a pass of the loop may come to: its dispatch ends, by a verdict or a panic, or in a dispatch
inside it that does not return; or it goes on, behind a jump or behind more of the text. -/
inductive Iterates (rules : Rules) (dispatch : Delivery → Action Verdict) (f : Frame) :
    EStateM.Result Halt Session (Verdict ⊕ Frame) → Prop where
  | ended (v : Verdict) (t : Session) : Iterates rules dispatch f (.ok (.inl v) t)
  | panicked (x : Fault) (t : Session) : Iterates rules dispatch f (.error (.fault x) t)
  | lost {d : Delivery} {s t : Session} {halt : Halt} (hNested : dispatch d s = .error halt t) :
      Iterates rules dispatch f (.error halt t)
  | jumped {g : Frame} {t : Session} (hInvocation : g.invocation = f.invocation)
      (hJump : rules.Jumps f g) : Iterates rules dispatch f (.ok (.inr g) t)
  | advanced {g : Frame} {t : Session} (hInvocation : g.invocation = f.invocation)
      (hPos : f.pos < g.pos) : Iterates rules dispatch f (.ok (.inr g) t)

/-- A pass that goes on has read a word. -/
theorem passWith_word {dispatch : Delivery → Action Verdict} {f g : Frame} {s t : Session}
    {scan : Scan (List Char)} (h : rules.passWith dispatch f s = .ok (.inr g) t)
    (hScan : f.invocation.script.commandAt (!f.stance.line) f.pos = .ok scan) : scan.value ≠ [] := by
  intro hValue
  obtain ⟨turn, q, hTurn, _, _, _, hStance⟩ := passWith_inr h
  obtain ⟨q', hBlank⟩ := @Act.turn_blank rules.registry _ _ ⟨s, f.pos, f.calls⟩ _ hScan hValue
  cases hTurn.symm.trans hBlank
  simp at hStance

/-- Where a pass fails, its turn panics or the dispatch inside it fails. -/
theorem passWith_error (hRegistry : rules.registry.OfBuiltins)
    {dispatch : Delivery → Action Verdict} {f : Frame} {s t : Session} {halt : Halt}
    (h : rules.passWith dispatch f s = .error halt t) :
    (∃ x, halt = .fault x) ∨ ∃ d u, dispatch d u = .error halt t := by
  rw [passWith, Action.bind_apply] at h
  cases hTurn : f.perform (Act.turn rules.registry f.stance) s with
  | error halt' u =>
      rw [hTurn] at h
      cases h
      exact .inl (Frame.perform_fault (Act.turn_cases hRegistry f.stance f.invocation _) hTurn)
  | ok result u =>
      obtain ⟨turn, f'⟩ := result
      rw [hTurn] at h
      cases turn with
      | finish v => cases h
      | go stance => cases h
      | send e stance =>
          dsimp only at h
          rw [Action.bind_apply] at h
          split at h
          · cases h
          · rename_i hDispatch
            cases h
            exact .inr ⟨_, _, Action.discard_error.mp hDispatch⟩

/-- Every pass of the loop ends its dispatch, jumps, or moves the cursor on. -/
theorem passWith_iterates (hRegistry : rules.registry.OfBuiltins)
    (dispatch : Delivery → Action Verdict) (f : Frame) (s : Session) :
    rules.Iterates dispatch f (rules.passWith dispatch f s) := by
  cases hPass : rules.passWith dispatch f s with
  | error halt t =>
      rcases passWith_error hRegistry hPass with ⟨x, rfl⟩ | ⟨d, u, hNested⟩
      · exact .panicked x t
      · exact .lost hNested
  | ok result t =>
      cases result with
      | inl v => exact .ended v t
      | inr g =>
          obtain ⟨scan, hScan, hInvocation, hMoved⟩ := passWith_moved hRegistry hPass
          obtain ⟨hLt, hStop⟩ := Script.commandAt_lt hScan (passWith_word hPass hScan)
          rcases hMoved.behind hStop with ⟨hLe, _⟩ | ⟨c, hCommand, hName, hLeap⟩
          · exact .advanced hInvocation (Nat.lt_of_lt_of_le hLt hLe)
          · exact .jumped hInvocation ⟨scan, c, hScan, hCommand, hName, hLeap⟩

end Rules

/-- The registry has neither `goto` nor `gosub`. -/
structure Registry.Straight (r : Registry) : Prop where
  goto : r.find? "goto" = none
  gosub : r.find? "gosub" = none

/-- The only jump that is left in such a registry is `return`. -/
theorem Registry.Straight.eq_return {r : Registry} (hStraight : r.Straight) (hr : r.OfBuiltins)
    {word : String} {c : Command} (h : r.find? word = some c) (hName : c.name ∈ Command.jumps) :
    c.name = "return" := by
  have hOther (name : String) (hNone : r.find? name = none) : c.name ≠ name := by
    rintro rfl
    have hSame : r.find? word = r.find? c.name := by rw [find?, find?, (hr.find? h).2]
    rw [h, hNone] at hSame
    cases hSame
  simp only [Command.jumps, List.mem_cons, List.not_mem_nil, or_false] at hName
  rcases hName with hGoto | hGosub | hReturn
  · exact absurd hGoto (hOther _ hStraight.goto)
  · exact absurd hGosub (hOther _ hStraight.gosub)
  · exact hReturn

namespace Rules

variable {rules : Rules}

/-- Without `goto` and `gosub` there are no return points, and every pass moves the cursor on. -/
theorem pass_advances (hRegistry : rules.registry.OfBuiltins) (hStraight : rules.registry.Straight)
    {fuel : Nat} {f g : Frame} {s t : Session} (hCalls : f.calls = [])
    (h : rules.pass fuel f s = .ok (.inr g) t) :
    g.invocation = f.invocation ∧ g.calls = [] ∧ f.pos < g.pos ∧ f.pos < f.invocation.script.size := by
  obtain ⟨scan, hScan, hInvocation, hMoved⟩ := passWith_moved hRegistry h
  have hValue := passWith_word h hScan
  obtain ⟨hLt, hStop⟩ := Script.commandAt_lt hScan hValue
  refine ⟨hInvocation, ?_⟩
  rcases hMoved.behind hStop with ⟨hLe, hSame⟩ | ⟨c, hCommand, hName, _⟩
  · exact ⟨hSame.trans hCalls, by omega, by omega⟩
  · have hReturn := hStraight.eq_return hRegistry hCommand hName
    obtain ⟨q, hEnd⟩ := Act.turn_return (p := ⟨s, f.pos, f.calls⟩) (hRegistry.find? hCommand).1
      hReturn hCommand hScan hValue hCalls
    obtain ⟨turn, q', hTurn, _, _, _, hStance⟩ := passWith_inr h
    cases hTurn.symm.trans hEnd
    simp at hStance

end Rules

end EntityScript
