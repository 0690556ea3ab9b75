import EntityScript.Proofs.ConditionStop
import EntityScript.Proofs.Lines
import EntityScript.Proofs.Passes
import EntityScript.Proofs.Respelling

/-! An `if` with its body on the same line, when its condition cannot be evaluated. Where the conditions on
the line are spelled, only the line is passed over. Where one of them is not, reading it goes on to the end
of the line, and what is passed over as its body is the first statement behind it. -/
namespace EntityScript

namespace Place

/-- The next place on the line that is neither gap nor remark. -/
def ahead (p : Place) : Place := (Script.skipGaps false false p.pos p.rest).1

/-- The command word there. -/
def command (p : Place) : Scan (List Char) := Script.commandWord p.ahead.pos p.ahead.rest

/-- Behind an `if` the line holds a condition and a body, which may be an `if` of the same kind. -/
inductive OneLine : Place → Prop where
  | statement {f : Formula} {p q : Place} (hCondition : Formula.Spelled f p q)
      (hBody : ¬ q.ahead.EndsLine) (hPlain : q.command.value ≠ "if".toList) : OneLine p
  | nested {f : Formula} {p q : Place} (hCondition : Formula.Spelled f p q)
      (hIf : q.command.value = "if".toList) (hBody : OneLine q.command.stop) : OneLine p

/-- No block opens on the line. -/
def Flat (p : Place) : Prop := '\x7b' ∉ p.rest.takeWhile (· ≠ '\n')

theorem ahead_along (p : Place) : p.Along p.ahead := Script.skipGaps_along _ _ _

theorem command_along (p : Place) : p.Along p.command.stop :=
  p.ahead_along.trans (Script.commandWord_along _ _)

theorem EndsLine.ahead {p : Place} (h : p.EndsLine) : p.ahead.EndsLine := by
  unfold Place.ahead
  rcases h with hNone | ⟨rest, hNewline⟩
  · rw [hNone]
    exact .inl rfl
  · rw [hNewline]
    exact .inr ⟨rest, rfl⟩

/-- A command word stands on the line, and behind the place. -/
theorem command_begins {p : Place} (h : p.command.value ≠ []) :
    ¬ p.ahead.EndsLine ∧ p.pos < p.command.stop.pos := by
  obtain ⟨first, rest, hRest, hStop, _⟩ := Script.commandWord_begins h
  have hSize : 0 < first.utf8Size := Char.utf8Size_pos first
  have hAhead := p.ahead_along.reaches.le
  have hCommand : p.command.stop.pos = (Script.commandWord p.ahead.pos p.ahead.rest).stop.pos := rfl
  refine ⟨fun hEnd => h ?_, by omega⟩
  unfold Place.command
  rcases hEnd with hNone | ⟨rest, hNewline⟩
  · rw [hNone]
    rfl
  · rw [hNewline]
    rfl

theorem Along.flat {p q : Place} (h : p.Along q) (hFlat : p.Flat) : q.Flat := by
  obtain ⟨passed, hRest, _, hNone⟩ := h
  have hPassed : ∀ c ∈ passed, (decide (c ≠ '\n')) = true := by
    intro c hc
    exact decide_eq_true fun hNewline => hNone (hNewline ▸ hc)
  unfold Flat at hFlat ⊢
  rw [hRest, List.takeWhile_append_of_pos hPassed, List.mem_append, not_or] at hFlat
  exact hFlat.2

/-- On a line without blocks a body can only start at the end. -/
theorem StartsBody.endsLine {p : Place} (h : p.StartsBody) (hFlat : p.Flat) : p.EndsLine := by
  rcases h with hEnd | ⟨rest, hBrace⟩
  · exact hEnd
  · refine absurd ?_ hFlat
    rw [hBrace, List.takeWhile_cons_of_pos (by decide)]
    exact List.mem_cons_self

end Place

namespace Script

variable {s : Script} {fuel pos stop : Nat} {notes : List Note} {p q : Place}

/-- What comes first behind an offset has been passed over when the cursor is at `stop`. -/
def Passes (s : Script) (pos stop : Nat) : Prop :=
  let first := (skipGaps true false pos (s.rest pos)).1
  first.pos ≤ stop ∧ (first.rest ≠ [] → first.pos < stop)

theorem Passes.le (h : s.Passes pos stop) {further : Nat} (hLe : stop ≤ further) :
    s.Passes pos further :=
  ⟨Nat.le_trans h.1 hLe, fun hFirst => Nat.lt_of_lt_of_le (h.2 hFirst) hLe⟩

/-- Whatever comes first behind the end of a line comes behind the newline. -/
theorem Passes.lt (h : s.Passes (s.lineStop pos) stop) (hValid : s.Valid pos)
    (hMore : s.lineStop pos < s.size) : s.lineStop pos < stop := by
  have hEnd := hValid.lineEnd_holds
  have hSize := hEnd.size_eq
  obtain hNone | ⟨rest, hNewline⟩ := Place.lineEnd_endsLine ⟨pos, s.rest pos⟩
  · rw [hNone, Text.width_nil] at hSize
    exact absurd hSize (Nat.ne_of_gt hMore)
  · have hLe := (skipGaps_reaches true false (s.lineStop pos + 1) rest).le
    have hFirst := h.1
    rw [lineStop, hEnd.rest_eq, hNewline, skipGaps, if_pos rfl, if_pos rfl] at hFirst
    exact Nat.lt_of_lt_of_le (Nat.lt_of_succ_le hLe) hFirst

/-- Gaps with newlines do not end at a newline. -/
theorem skipGaps_ne_newline {remark : Bool} {pos : Nat} {cs rest : List Char} {c : Char}
    (h : (skipGaps true remark pos cs).1.rest = c :: rest) : c ≠ '\n' := by
  induction cs generalizing remark pos with
  | nil => cases h
  | cons first cs ih =>
      rw [skipGaps] at h
      split at h
      · exact ih h
      · rename_i hNewline
        split at h
        · exact ih h
        · split at h
          · exact ih h
          · cases h
            exact hNewline

theorem skipWord_of_ne (h : (commandWord p.pos p.rest).value ≠ "if".toList) :
    s.skipWord fuel p = .ok ((lineEnd p.pos p.rest).pos, (commandWord p.pos p.rest).notes) := by
  rw [skipWord, if_neg (show ¬ _ = ['i', 'f'] from h)]

/-- An `if` without an `else` ends with its body. -/
theorem skipWord_of_if {after : Nat} {bodyNotes : List Note} {follower : Scan (List Char)}
    (hIf : (commandWord p.pos p.rest).value = "if".toList)
    (hSkip : s.skipStatement fuel (Condition.read (commandWord p.pos p.rest).stop).2.pos =
      .ok (after, bodyNotes))
    (hFollower : s.commandAt true after = .ok follower) (hElse : follower.value ≠ "else".toList) :
    ∃ notes, s.skipWord fuel p = .ok (after, notes) := by
  rw [skipWord, if_pos (show _ = ['i', 'f'] from hIf)]
  simp only [bind, Except.bind, hSkip, hFollower, if_neg hElse]
  exact ⟨_, rfl⟩

/-- Passing over an `if` passes over its body, and over what is behind the `else` that follows it. -/
theorem skipWord_if (hIf : (commandWord p.pos p.rest).value = "if".toList)
    (h : s.skipWord fuel p = .ok (stop, notes)) :
    ∃ after bodyNotes follower,
      s.skipStatement fuel (Condition.read (commandWord p.pos p.rest).stop).2.pos =
        .ok (after, bodyNotes) ∧
      s.commandAt true after = .ok follower ∧
      ((follower.value ≠ "else".toList ∧ stop = after) ∨
        ∃ elseNotes, s.skipStatement fuel follower.stop.pos = .ok (stop, elseNotes)) := by
  unfold skipWord at h
  dsimp only at h
  rw [if_pos (show _ = ['i', 'f'] from hIf)] at h
  simp only [bind, Except.bind] at h
  split at h
  · cases h
  rename_i passed hSkip
  split at h
  · cases h
  rename_i follower hFollower
  refine ⟨passed.1, passed.2, follower, hSkip, hFollower, ?_⟩
  split at h
  · split at h
    · cases h
    rename_i last hLast
    cases h
    exact .inr ⟨last.2, hLast⟩
  · rename_i hElse
    cases h
    exact .inl ⟨hElse, rfl⟩

/-- What lies behind a statement that was passed over lies behind its beginning. -/
theorem after_le {after : Nat} {follower : Scan (List Char)}
    (hFollower : s.commandAt true after = .ok follower)
    (hStop : (follower.value ≠ "else".toList ∧ stop = after) ∨
      ∃ elseNotes, s.skipStatement fuel follower.stop.pos = .ok (stop, elseNotes)) : after ≤ stop := by
  rcases hStop with ⟨_, rfl⟩ | ⟨elseNotes, hSkip⟩
  · exact Nat.le_refl _
  · have hHere := (commandAt_holds hFollower).1.le_size
    have hThere := (commandAt_holds hFollower).2.valid.le_size
    have hFirst := (commandAt_onward hFollower).le
    have hSecond := (skipStatement_onward hSkip).le
    omega

/-- Passing over a statement passes over what comes first. -/
theorem skipStatement_passes (hValid : s.Valid pos)
    (h : s.skipStatement (fuel + 1) pos = .ok (stop, notes)) : s.Passes pos stop := by
  have hGaps := skipGaps_reaches true false pos (s.rest pos)
  have hStart := hValid.holds.reaches hGaps
  have hFirst (c : Char) (cs : List Char)
      (hRest : (skipGaps true false pos (s.rest pos)).1.rest = c :: cs) := skipGaps_ne_newline hRest
  rw [skipStatement_succ] at h
  unfold Passes
  generalize (skipGaps true false pos (s.rest pos)).1 = start at h hStart hFirst ⊢
  obtain ⟨begin, rest⟩ := start
  suffices hLt : rest ≠ [] → begin < stop by
    refine ⟨?_, hLt⟩
    cases rest with
    | nil =>
        cases h
        exact Nat.le_refl _
    | cons c cs => exact Nat.le_of_lt (hLt (List.cons_ne_nil _ _))
  intro hSome
  obtain ⟨c, cs, rfl⟩ := List.exists_cons_of_ne_nil hSome
  have hSize : 0 < c.utf8Size := Char.utf8Size_pos c
  dsimp only at h
  split at h
  · cases h
    rcases closeBlock_stop .plain 1 (begin + 1) cs with ⟨passed, _, _, hStop⟩ | hStop <;> omega
  · by_cases hIf : (commandWord begin (c :: cs)).value = "if".toList
    · obtain ⟨after, bodyNotes, follower, hSkip, hFollower, hElse⟩ :=
        skipWord_if (p := ⟨begin, c :: cs⟩) hIf h
      obtain ⟨first, rest, hWord, hBehind, _⟩ := commandWord_begins (by rw [hIf]; decide)
      cases hWord
      have hBody := Condition.read_reaches (commandWord begin (c :: cs)).stop
      have hHolds := (hStart.reaches (commandWord_reaches _ _)).reaches hBody
      have hOn := (skipStatement_onward hSkip).le
      have hWithin := hHolds.valid.le_size
      have hLe := hBody.le
      have hAfter := after_le hFollower hElse
      dsimp only at hOn
      omega
    · rw [skipWord_of_ne hIf] at h
      cases h
      have hLine := (lineEnd_reaches (begin + c.utf8Size) cs).le
      dsimp only at hLine ⊢
      rw [lineEnd, if_neg (hFirst c cs rfl)]
      omega

/-- Passing over what a line still holds. -/
theorem skipStatement_ahead (hp : s.Holds p) (hMore : ¬ p.ahead.EndsLine) (hFlat : p.Flat) :
    s.skipStatement (fuel + 1) p.pos = s.skipWord fuel p.ahead := by
  rw [skipStatement_succ, hp.rest_eq, skipGaps_of_more _ _ _ hMore]
  dsimp only
  cases hRest : p.ahead.rest with
  | nil => exact absurd (.inl hRest) hMore
  | cons c cs =>
      have hBrace : c ≠ '\x7b' := by
        rintro rfl
        refine p.ahead_along.flat hFlat ?_
        rw [hRest, List.takeWhile_cons_of_pos (by decide)]
        exact List.mem_cons_self
      rw [show (skipGaps false false p.pos p.rest).1.rest = c :: cs from hRest]
      exact if_neg hBrace

/-- Behind the condition of a one-line `if`, passing over the body ends with the line, unless an `else`
follows it. -/
theorem skipStatement_oneLine (h : p.OneLine) (hp : s.Holds p) (hFlat : p.Flat)
    (hElse : ∀ follower, s.commandAt true (s.lineStop p.pos) = .ok follower →
      follower.value ≠ "else".toList)
    (hFuel : s.size < fuel + (Condition.read p).2.pos) :
    ∃ notes, s.skipStatement fuel (Condition.read p).2.pos = .ok (s.lineStop p.pos, notes) := by
  induction h generalizing fuel with
  | @statement f p q hCondition hBody hPlain =>
      obtain rfl : q = (Condition.read p).2 := by rw [Condition.read_spelled hCondition]
      have hAlong := Condition.read_along p
      have hq := hp.reaches hAlong.reaches
      have hSize := hq.valid.le_size
      obtain ⟨fuel, rfl⟩ : ∃ k, fuel = k + 1 := ⟨fuel - 1, by omega⟩
      rw [skipStatement_ahead hq hBody (hAlong.flat hFlat), skipWord_of_ne hPlain,
        (hAlong.trans (Place.ahead_along _)).lineEnd_eq, ← hp.lineStop_eq]
      exact ⟨_, rfl⟩
  | @nested f p q hCondition hIf hBody ih =>
      obtain rfl : q = (Condition.read p).2 := by rw [Condition.read_spelled hCondition]
      have hAlong := Condition.read_along p
      have hq := hp.reaches hAlong.reaches
      have hSize := hq.valid.le_size
      have hWord := hAlong.trans (Place.command_along _)
      have hStop := hp.lineStop_along hWord
      obtain ⟨hMore, hBehind⟩ := Place.command_begins (p := (Condition.read p).2) (by rw [hIf]; decide)
      have hInner := (Condition.read_reaches (Condition.read p).2.command.stop).le
      obtain ⟨fuel, rfl⟩ : ∃ k, fuel = k + 1 := ⟨fuel - 1, by omega⟩
      obtain ⟨notes, hSkip⟩ := ih (hp.reaches hWord.reaches) (hWord.flat hFlat) (hStop ▸ hElse)
        (show s.size < fuel + (Condition.read (Condition.read p).2.command.stop).2.pos by omega)
      rw [hStop] at hSkip
      rw [skipStatement_ahead hq hMore (hAlong.flat hFlat)]
      cases hFollower : s.commandAt true (s.lineStop p.pos) with
      | ok follower => exact skipWord_of_if hIf hSkip hFollower (hElse follower hFollower)
      | error f => exact absurd hp.valid.lineEnd_holds.valid (commandAt_error hFollower).2

/-- Where the line holds no condition with a body, passing over the body passes over what comes first
behind the line. -/
theorem skipStatement_of_not_oneLine (h : ¬ p.OneLine) (hp : s.Holds p) (hFlat : p.Flat)
    (hFuel : s.size < fuel + (Condition.read p).2.pos)
    (hSkip : s.skipStatement fuel (Condition.read p).2.pos = .ok (stop, notes)) :
    s.Passes (s.lineStop p.pos) stop := by
  induction fuel generalizing p stop notes with
  | zero =>
      have hSize := (hp.reaches (Condition.read_reaches p)).valid.le_size
      omega
  | succ fuel ih =>
      have hAlong := Condition.read_along p
      have hq := hp.reaches hAlong.reaches
      have hPasses := skipStatement_passes hq.valid hSkip
      -- Where nothing is left on the line, what comes first is behind it.
      have hBehind (hEnd : (Condition.read p).2.ahead.EndsLine) :
          s.Passes (s.lineStop p.pos) stop := by
        unfold Passes at hPasses ⊢
        rw [hq.rest_eq, skipGaps_of_endsLine _ _ _ hEnd, hAlong.lineEnd_eq] at hPasses
        rw [hp.lineStop_eq, (hp.reaches (lineEnd_reaches _ _)).rest_eq]
        exact hPasses
      rcases Condition.read_stops p with ⟨f, hSpelled⟩ | ⟨_, hBody⟩
      · by_cases hEnd : (Condition.read p).2.ahead.EndsLine
        · exact hBehind hEnd
        · by_cases hIf : (Condition.read p).2.command.value = "if".toList
          · rw [skipStatement_ahead hq hEnd (hAlong.flat hFlat)] at hSkip
            obtain ⟨after, bodyNotes, follower, hInner, hFollower, hElse⟩ := skipWord_if hIf hSkip
            have hWord := hAlong.trans (Place.command_along _)
            obtain ⟨_, hFurther⟩ :=
              Place.command_begins (p := (Condition.read p).2) (by rw [hIf]; decide)
            have hLe := (Condition.read_reaches (Condition.read p).2.command.stop).le
            have hInside := ih (fun hInside => h (.nested hSpelled hIf hInside)) (hp.reaches hWord.reaches)
              (hWord.flat hFlat) (by omega) hInner
            rw [hp.lineStop_along hWord] at hInside
            exact hInside.le (after_le hFollower hElse)
          · exact absurd (.statement hSpelled hEnd hIf) h
      · exact hBehind (hBody.endsLine (hAlong.flat hFlat)).ahead

end Script

namespace Act

variable {inv : Invocation} {p q : Progress}

/-- The cursor behind a keyword if that is the next word, and where it was if not. -/
theorem consume_ok {follower : Scan (List Char)}
    (hFollower : inv.script.commandAt true p.pos = .ok follower) (keyword : List Char) : ∃ log, consume (String.ofList keyword) inv p =
      .ok (decide (follower.value = keyword))
        (p.read log (if follower.value = keyword then follower.stop.pos else p.pos)) := by
  obtain ⟨log, hRun⟩ := command_ok inv p hFollower
  refine ⟨log, ?_⟩
  rw [consume, get_bind, bind_apply, show command true inv p = _ from hRun]
  dsimp only
  by_cases hWord : follower.value = keyword
  · rw [if_pos (congrArg String.ofList hWord), if_pos hWord, decide_eq_true hWord]
    rfl
  · rw [if_neg fun h => hWord (String.ofList_injective h), if_neg hWord, decide_eq_false hWord]
    rfl

/-- Passing over the body of an `if` ends behind the statement, or behind the `else` that follows it. -/
theorem skipBody_ok {stop : Nat} {notes : List Note} {follower : Scan (List Char)}
    (hSkip : inv.script.skipStatement (inv.script.size + 1) p.pos = .ok (stop, notes))
    (hFollower : inv.script.commandAt true stop = .ok follower) :
    ∃ log, Command.skipBody inv p = .ok ()
      (p.read log (if follower.value = "else".toList then follower.stop.pos else stop)) := by
  obtain ⟨log, hRun⟩ := @skipStatement_ok inv _ p _ _ hSkip
  obtain ⟨log', hElse⟩ := consume_ok (p := p.read log stop) hFollower "else".toList
  refine ⟨log', ?_⟩
  rw [Command.skipBody, bind_apply, show skipStatement inv p = _ from hRun]
  change (consume (String.ofList "else".toList) >>= fun _ => Pure.pure ()) inv (p.read log stop) = _
  rw [bind_apply, hElse]
  rfl

theorem exists_of_skipBody (h : Command.skipBody inv p = .ok () q) : ∃ stop notes follower,
    inv.script.skipStatement (inv.script.size + 1) p.pos = .ok (stop, notes) ∧
    inv.script.commandAt true stop = .ok follower ∧
    q.pos = if follower.value = "else".toList then follower.stop.pos else stop := by
  cases hSkip : inv.script.skipStatement (inv.script.size + 1) p.pos with
  | error f =>
      rw [Command.skipBody, bind_apply,
        show skipStatement inv p = _ from @skipStatement_fault inv _ p _ hSkip] at h
      cases h
  | ok passed =>
      obtain ⟨stop, notes⟩ := passed
      cases hFollower : inv.script.commandAt true stop with
      | ok follower =>
          obtain ⟨log, hRun⟩ := skipBody_ok hSkip hFollower
          cases hRun.symm.trans h
          exact ⟨stop, notes, follower, rfl, hFollower, rfl⟩
      | error f =>
          obtain ⟨log, hRun⟩ := @skipStatement_ok inv _ p _ _ hSkip
          have hFault : command true inv (p.read log stop) = _ :=
            @command_fault inv _ (p.read log stop) _ _ hFollower
          rw [Command.skipBody, bind_apply, show skipStatement inv p = _ from hRun] at h
          change ((consume "else") >>= fun _ => Pure.pure ()) inv (p.read log stop) = _ at h
          rw [bind_apply, consume, get_bind, bind_apply, hFault] at h
          cases h

/-- An `if` whose condition comes to nothing passes over its body. -/
theorem runIf_of_nothing {c : Progress} (hNothing : condition inv p = .ok none c) :
    Command.runIf inv p = match Command.skipBody inv c with
      | .ok _ q => .ok .failed q
      | .error halt q => .error halt q := by
  rw [Command.runIf, bind_apply, hNothing]
  change (Command.skipBody >>= fun _ => (Pure.pure Reply.failed : Act Reply)) inv c = _
  rw [bind_apply]
  cases Command.skipBody inv c <;> rfl

/-- What an `if` does on a line without blocks when its condition cannot be evaluated, whether because of
its grammar or of the types in it. If the line holds a condition with a body, all conditions on the way
spelled, then the cursor stops at the end of the line, unless an `else` follows. If not, it does not stop
there: what comes first behind the line, a statement or a closing brace, is passed over as the body. -/
theorem runIf_stops_on_line (hValid : inv.script.Valid p.pos)
    (hFlat : '\x7b' ∉ (inv.script.rest p.pos).takeWhile (· ≠ '\n'))
    (hElse : ∀ follower, inv.script.commandAt true (inv.script.lineStop p.pos) = .ok follower →
      follower.value ≠ "else".toList)
    (hNothing : ∃ c, condition inv p = .ok none c) :
    ((inv.script.placeAt p.pos).OneLine →
      ∃ q, Command.runIf inv p = .ok .failed q ∧ q.pos = inv.script.lineStop p.pos) ∧
    (¬ (inv.script.placeAt p.pos).OneLine →
      ∀ r q, Command.runIf inv p = .ok r q → inv.script.Passes (inv.script.lineStop p.pos) q.pos ∧
        (inv.script.lineStop p.pos < inv.script.size → inv.script.lineStop p.pos < q.pos)) := by
  obtain ⟨c, hNothing⟩ := hNothing
  have hPlace := placeAt_eq hValid.holds
  have hStop := pos_of_condition hNothing
  simp only at hPlace
  rw [hPlace] at hStop ⊢
  have hBehind := (hValid.holds.reaches (Condition.read_reaches _)).valid
  have hFuel : inv.script.size < inv.script.size + 1 + c.pos := by omega
  constructor
  · intro hOneLine
    obtain ⟨notes, hSkip⟩ :=
      Script.skipStatement_oneLine hOneLine hValid.holds hFlat hElse (hStop ▸ hFuel)
    rw [← hStop] at hSkip
    cases hFollower : inv.script.commandAt true (inv.script.lineStop p.pos) with
    | error f => exact absurd hValid.lineEnd_holds.valid (Script.commandAt_error hFollower).2
    | ok follower =>
        obtain ⟨log, hRun⟩ := skipBody_ok hSkip hFollower
        rw [if_neg (hElse follower hFollower)] at hRun
        rw [runIf_of_nothing hNothing, hRun]
        exact ⟨_, rfl, rfl⟩
  · intro hBroken r q hRun
    rw [runIf_of_nothing hNothing] at hRun
    cases hBody : Command.skipBody inv c with
    | error halt q' =>
        rw [hBody] at hRun
        cases hRun
    | ok _ q' =>
        rw [hBody] at hRun
        cases hRun
        obtain ⟨stop, notes, follower, hSkip, hFollower, hEnd⟩ := exists_of_skipBody hBody
        have hPasses := Script.skipStatement_of_not_oneLine hBroken hValid.holds hFlat (hStop ▸ hFuel)
          (hStop ▸ hSkip)
        have hOn := (Script.commandAt_onward hFollower).le
        have hHere := (Script.commandAt_holds hFollower).1.le_size
        have hFurther : inv.script.Passes (inv.script.lineStop p.pos) q.pos := by
          refine hPasses.le ?_
          rw [hEnd]
          split <;> omega
        exact ⟨hFurther, hFurther.lt hValid⟩

/-- A dispatch at a condition that is broken off, with its body and a statement on the next line. -/
def brokenInvocation : Invocation :=
  { script := .ofNormal "broken" "(1 ==) set #a 1\nset #b 1\naccept", entity := ⟨0⟩,
    event := .fixed .init }

/-- The start of it. -/
def brokenStart : Progress := ⟨⟨.ofConfig { seed := some 0 }, .silent, #[]⟩, 0, []⟩

set_option maxRecDepth 100000 in
/-- The cursor stops behind the statement on the next line. -/
theorem runIf_stops_on_line_broken :
    ∃ r q, Command.runIf brokenInvocation brokenStart = .ok r q ∧ q.pos = 24 ∧
      brokenInvocation.script.lineStop 0 = 15 ∧ 15 < q.pos := by
  have hNothingRun : returned? (condition brokenInvocation brokenStart) = some none := by
    decide +kernel
  obtain ⟨c, hNothing⟩ := exists_ok_of_returned? hNothingRun
  have hLine : brokenInvocation.script.lineStop 0 = 15 := by decide +kernel
  have hNoElse : (brokenInvocation.script.commandAt true 15).toOption.all
      (fun follower => decide (follower.value ≠ "else".toList)) = true := by decide +kernel
  have hBroken : ¬ (brokenInvocation.script.placeAt 0).OneLine := by
    intro hOneLine
    have hBreaks : (Condition.read (brokenInvocation.script.placeAt 0)).1.breaks = true := by
      decide +kernel
    cases hOneLine with
    | statement hCondition =>
        rw [Condition.read_spelled hCondition, Formula.condition_breaks] at hBreaks
        cases hBreaks
    | nested hCondition =>
        rw [Condition.read_spelled hCondition, Formula.condition_breaks] at hBreaks
        cases hBreaks
  have hStops := (runIf_stops_on_line (p := brokenStart)
    (Script.valid_zero brokenInvocation.script) (by decide +kernel) (fun follower hFollower => by
      rw [show brokenInvocation.script.lineStop brokenStart.pos = 15 from hLine] at hFollower
      rw [hFollower] at hNoElse
      exact of_decide_eq_true hNoElse) ⟨c, hNothing⟩).2 hBroken
  have hRun : Result.passes (fun _ q => q.pos = 24) (Command.runIf brokenInvocation brokenStart) =
      true := by decide +kernel
  obtain ⟨r, q, hIf, hEnd⟩ := Result.exists_of_passes hRun
  have hBeyond := (hStops r q hIf).2 (by decide +kernel)
  exact ⟨r, q, hIf, of_decide_eq_true hEnd, hLine, hLine ▸ hBeyond⟩

end Act

end EntityScript
