import EntityScript.Proofs.Offsets

/-! Where conditions, passed statements and landmarks leave the cursor. All of them read on, and all
of them keep to valid offsets of a sealed script: one in which no block runs into a quoted string that
the text ends in. -/
namespace EntityScript

namespace Script

/-- A character of a token lies on its line. -/
theorem newline_not_mem_takeWhile (cs : List Char) : '\n' ∉ cs.takeWhile isWordChar := fun h => by
  have hWord := List.all_eq_true.mp List.all_takeWhile _ h
  exact absurd hWord (by decide)

theorem nextToken_along (p : Place) : p.Along (nextToken p).next := by
  have hStart := skipBlanks_along false p.pos p.rest
  unfold nextToken
  dsimp only
  split
  · exact hStart
  · rename_i c cs hRest
    have hOne : c.utf8Size = 1 → c ≠ '\n' →
        p.Along ⟨(skipBlanks false p.pos p.rest).pos + 1, cs⟩ := fun hSize hc =>
      hStart.trans ⟨[c], by simp [hRest], by simp [hSize], by simpa using hc.symm⟩
    split
    · exact hStart
    split
    · rename_i hc; subst hc; exact hOne rfl (by decide)
    split
    · rename_i hc; subst hc; exact hOne rfl (by decide)
    split
    · rename_i hc; subst hc; exact hOne rfl (by decide)
    split
    · rename_i hc
      subst hc
      have hBody := (hOne rfl (by decide)).trans (quotedBody_along _ _)
      split
      · rename_i rest hQuote
        exact hBody.trans ⟨['"'], by simp [hQuote], rfl, by decide⟩
      · exact hBody
    · have hWord : p.Along ⟨(skipBlanks false p.pos p.rest).pos +
          Text.width ((c :: cs).takeWhile isWordChar), (c :: cs).dropWhile isWordChar⟩ :=
        hStart.trans ⟨(c :: cs).takeWhile isWordChar, by simp [hRest], rfl,
          newline_not_mem_takeWhile _⟩
      split <;> exact hWord

theorem nextToken_reaches (p : Place) : p.Reaches (nextToken p).next := (nextToken_along p).reaches

end Script

/-! A condition and the tokens that it is made of stand on one line. -/

namespace Condition

theorem bodyStart_along (p : Place) : p.Along (bodyStart p) := by
  refine ⟨p.rest.takeWhile fun c => c ≠ '\x7b' && c ≠ '\n', ?_, rfl, fun h => ?_⟩
  · simp only [bodyStart]
    exact (List.prefix_iff_eq_append.mp (List.takeWhile_prefix _)).symm
  · have hPassed := List.all_eq_true.mp List.all_takeWhile _ h
    exact absurd hPassed (by decide)

theorem readComparison_along (unclosed : List Nat) (p : Place) :
    p.Along (readComparison unclosed p).2 := by
  have hLeft := Script.nextToken_along p
  have hMiddle := hLeft.trans (Script.nextToken_along _)
  have hRight := hMiddle.trans (Script.nextToken_along _)
  unfold readComparison
  dsimp only
  split
  · split
    · split
      · split
        · exact hRight
        · exact hRight.trans (bodyStart_along _)
      · exact hMiddle.trans (bodyStart_along _)
    · exact hMiddle.trans (bodyStart_along _)
  · exact hLeft.trans (bodyStart_along _)

theorem close_along (message : String) (c : Condition) (p : Place) :
    p.Along (close message (c, p)).2 := by
  have hToken := Script.nextToken_along p
  unfold close
  dsimp only
  split
  · exact .refl _
  · split
    · exact hToken
    · exact hToken.trans (bodyStart_along _)

mutual

theorem readItem_along (fuel : Nat) (p : Place) : p.Along (readItem fuel p).2 := by
  cases fuel with
  | zero => exact bodyStart_along p
  | succ fuel =>
      have hToken := Script.nextToken_along p
      have hInside := hToken.trans (Script.nextToken_along _)
      rw [readItem]
      dsimp only
      split
      · exact (hToken.trans (readItem_along fuel _)).trans (close_along _ _ _)
      · split
        · exact readComparison_along _ _
        · split
          · split
            · exact (hInside.trans (readItem_along fuel _)).trans (close_along _ _ _)
            · have hParts := hInside.trans (readParts_along fuel _)
              split <;> exact hParts
          · exact readComparison_along _ _
      · exact readComparison_along _ _

theorem readParts_along (fuel : Nat) (p : Place) : p.Along (readParts fuel p).2.2 := by
  cases fuel with
  | zero => exact bodyStart_along p
  | succ fuel =>
      have hItem := readItem_along fuel p
      have hToken := hItem.trans (Script.nextToken_along _)
      rw [readParts]
      dsimp only
      split
      · exact hItem
      · split
        · exact hToken.trans (readParts_along fuel _)
        · exact hToken
        · exact hToken.trans (bodyStart_along _)

end

theorem bodyStart_reaches (p : Place) : p.Reaches (bodyStart p) := (bodyStart_along p).reaches

theorem close_reaches (message : String) (c : Condition) (p : Place) :
    p.Reaches (close message (c, p)).2 :=
  (close_along message c p).reaches

theorem readItem_reaches (fuel : Nat) (p : Place) : p.Reaches (readItem fuel p).2 :=
  (readItem_along fuel p).reaches

theorem readParts_reaches (fuel : Nat) (p : Place) : p.Reaches (readParts fuel p).2.2 :=
  (readParts_along fuel p).reaches

theorem read_along (p : Place) : p.Along (read p).2 := readItem_along _ _

theorem read_reaches (p : Place) : p.Reaches (read p).2 := (read_along p).reaches

end Condition

namespace Script

/-- No block, wherever it begins, runs into a quoted string that the text ends in. Passing over such
a block would count a closing quote that is not there. -/
def Sealed (s : Script) : Prop :=
  ∀ pos cs, s.from? pos = some ('\x7b' :: cs) → (closeBlock .plain 1 (pos + 1) cs).1 ≤ s.size

/-- A block ends behind whole characters, or one byte beyond the text. -/
theorem closeBlock_stop (zone : Zone) (depth pos : Nat) (cs : List Char) :
    (∃ passed rest, cs = passed ++ rest ∧
      (closeBlock zone depth pos cs).1 = pos + Text.width passed) ∨
    (closeBlock zone depth pos cs).1 = pos + Text.width cs + 1 := by
  induction cs generalizing zone depth pos with
  | nil =>
      rw [closeBlock]
      split
      · exact .inr rfl
      · exact .inl ⟨[], [], rfl, rfl⟩
  | cons c cs ih =>
      -- Braces are one byte wide, so each case goes on behind a whole character.
      have step (zone : Zone) (depth next : Nat) (hNext : next = pos + c.utf8Size) :
          (∃ passed rest, c :: cs = passed ++ rest ∧
            (closeBlock zone depth next cs).1 = pos + Text.width passed) ∨
          (closeBlock zone depth next cs).1 = pos + Text.width (c :: cs) + 1 := by
        subst hNext
        rcases ih zone depth (pos + c.utf8Size) with ⟨passed, rest, hcs, hStop⟩ | hStop
        · refine .inl ⟨c :: passed, rest, by rw [hcs, List.cons_append], ?_⟩
          rw [hStop, Text.width_cons]
          omega
        · refine .inr ?_
          rw [hStop, Text.width_cons]
          omega
      rw [closeBlock]
      split
      · rename_i hOpen
        simp only [Bool.and_eq_true, decide_eq_true_eq] at hOpen
        exact step _ _ _ (by rw [hOpen.2]; rfl)
      · split
        · rename_i hClose
          simp only [Bool.and_eq_true, decide_eq_true_eq] at hClose
          have hOne : pos + 1 = pos + c.utf8Size := by rw [hClose.2]; rfl
          split
          · exact .inl ⟨[c], cs, rfl, by simp [hOne]⟩
          · exact step _ _ _ hOne
        · exact step _ _ _ rfl

/-- Where a cursor may stand: at a valid offset, or one byte behind a script that is not sealed. -/
def Placed (s : Script) (pos : Nat) : Prop :=
  s.Valid pos ∨ (¬ s.Sealed ∧ pos = s.size + 1)

theorem Placed.not_sealed {s : Script} {pos : Nat} (h : s.Placed pos) (hPos : ¬ s.Valid pos) :
    ¬ s.Sealed :=
  (h.resolve_left hPos).1

/-- Reading on. The cursor moves back at most to the end of the text, and it stays where a cursor may
stand. -/
structure Onward (s : Script) (p q : Nat) : Prop where
  le : min p s.size ≤ q
  placed : s.Placed p → s.Placed q

theorem Onward.refl (s : Script) (p : Nat) : s.Onward p p := ⟨Nat.min_le_left _ _, id⟩

theorem Onward.trans {s : Script} {p q r : Nat} (hpq : s.Onward p q) (hqr : s.Onward q r) :
    s.Onward p r := by
  refine ⟨?_, fun h => hqr.placed (hpq.placed h)⟩
  have hLeft := hpq.le
  have hRight := hqr.le
  omega

/-- A scan that begins at the cursor reads on. -/
theorem onward_of_reaches {s : Script} {pos : Nat} {q : Place}
    (h : Place.Reaches ⟨pos, s.rest pos⟩ q) : s.Onward pos q.pos := by
  refine ⟨Nat.le_trans (Nat.min_le_left _ _) h.le, ?_⟩
  rintro (hValid | ⟨hOpen, hBehind⟩)
  · exact .inl (hValid.holds.reaches h).valid
  · by_cases hValid : s.Valid pos
    · exact .inl (hValid.holds.reaches h).valid
    · have hNone : s.from? pos = none := by simpa [Valid] using hValid
      obtain ⟨passed, hRest, hPos⟩ := h
      simp only [rest, hNone, Option.getD_none, List.nil_eq, List.append_eq_nil_iff] at hRest
      rw [hPos, hRest.1]
      exact .inr ⟨hOpen, hBehind⟩

/-- A cursor beyond the end moves back to it. -/
theorem onward_clamp (s : Script) (pos : Nat) : s.Onward pos (min pos s.size) := by
  refine ⟨Nat.le_refl _, ?_⟩
  rintro (hValid | ⟨_, hBehind⟩)
  · rw [Nat.min_eq_left hValid.le_size]
    exact .inl hValid
  · rw [hBehind, Nat.min_eq_right (Nat.le_succ _)]
    exact .inl s.size_valid

/-- Passing over a whole block reads on. -/
theorem closeBlock_onward {s : Script} {pos : Nat} {cs : List Char}
    (hPlace : s.Holds ⟨pos, '\x7b' :: cs⟩) :
    s.Onward pos (closeBlock .plain 1 (pos + 1) cs).1 := by
  have hInside : s.Holds ⟨pos + 1, cs⟩ := hPlace.reaches ⟨['\x7b'], rfl, rfl⟩
  have hSize := hInside.size_eq
  simp only at hSize
  rcases closeBlock_stop .plain 1 (pos + 1) cs with ⟨passed, rest, hcs, hStop⟩ | hStop
  · refine ⟨by omega, fun _ => .inl ?_⟩
    rw [hStop]
    exact (hInside.reaches (q := ⟨_, rest⟩) ⟨passed, hcs, rfl⟩).valid
  · refine ⟨by omega, fun _ => .inr ⟨fun hSealed => ?_, by omega⟩⟩
    have hLe := hSealed pos cs hPlace
    omega

theorem commandAt_holds {s : Script} {lines : Bool} {pos : Nat} {scan : Scan (List Char)}
    (h : s.commandAt lines pos = .ok scan) : s.Valid pos ∧ s.Holds scan.stop := by
  unfold commandAt at h
  split at h
  · cases h
  · rename_i cs hcs
    cases h
    have hPlace : s.Holds ⟨pos, cs⟩ := hcs
    exact ⟨hPlace.valid,
      (hPlace.reaches (skipGaps_reaches _ _ _ _)).reaches (commandWord_reaches _ _)⟩

theorem commandAt_onward {s : Script} {lines : Bool} {pos : Nat} {scan : Scan (List Char)}
    (h : s.commandAt lines pos = .ok scan) : s.Onward pos scan.stop.pos := by
  unfold commandAt at h
  split at h
  · cases h
  · rename_i cs hcs
    cases h
    have hPlace : s.Holds ⟨pos, cs⟩ := hcs
    refine onward_of_reaches ?_
    rw [hPlace.rest_eq]
    exact (skipGaps_reaches _ _ _ _).trans (commandWord_reaches _ _)

theorem commandAt_eq {s : Script} {lines : Bool} {pos : Nat} {scan : Scan (List Char)}
    (h : s.commandAt lines pos = .ok scan) :
    scan = commandWord (skipGaps lines false pos (s.rest pos)).1.pos
      (skipGaps lines false pos (s.rest pos)).1.rest := by
  have hFrom : s.from? pos = some (s.rest pos) := (commandAt_holds h).1.holds
  simp only [commandAt, hFrom] at h
  exact (Except.ok.inj h).symm

/-- No command word can be read where no text is. -/
theorem commandAt_error {s : Script} {lines : Bool} {pos : Nat} {f : Fault}
    (h : s.commandAt lines pos = .error f) : f = .outsideText ∧ ¬ s.Valid pos := by
  unfold commandAt at h
  split at h
  · rename_i hNone
    cases h
    exact ⟨rfl, by simp [Valid, hNone]⟩
  · cases h

/-- Passing over a statement reads on. -/
theorem skipStatement_onward {s : Script} {fuel pos stop : Nat} {notes : List Note}
    (h : s.skipStatement fuel pos = .ok (stop, notes)) : s.Onward pos stop := by
  induction fuel generalizing pos stop notes with
  | zero =>
      cases h
      exact .refl _ _
  | succ fuel ih =>
      have hGaps := skipGaps_reaches true false pos (s.rest pos)
      have hStart := onward_of_reaches hGaps
      rw [skipStatement] at h
      dsimp only at h
      split at h
      · cases h
        exact hStart
      · rename_i c cs hRest
        split at h
        · rename_i hBrace
          subst hBrace
          cases h
          by_cases hValid : s.Valid pos
          · refine hStart.trans (closeBlock_onward ?_)
            have hHere := hValid.holds.reaches hGaps
            rwa [Holds, hRest] at hHere
          · have hNone : s.from? pos = none := by simpa [Valid] using hValid
            simp [rest, hNone, skipGaps] at hRest
        · have hWord := hGaps.trans (commandWord_reaches _ _)
          split at h
          · have hBody := onward_of_reaches (hWord.trans (Condition.read_reaches _))
            simp only [bind, Except.bind] at h
            split at h
            · cases h
            rename_i hSkip
            have hAfter := hBody.trans (ih hSkip)
            split at h
            · cases h
            rename_i hFollower
            split at h
            · split at h
              · cases h
              rename_i hSkipElse
              cases h
              exact (hAfter.trans (commandAt_onward hFollower)).trans (ih hSkipElse)
            · cases h
              exact hAfter
          · cases h
            exact onward_of_reaches (hGaps.trans (lineEnd_reaches _ _))

/-- Passing over a statement can only fail behind a block that is not sealed off. -/
theorem skipStatement_error {s : Script} {fuel pos : Nat} {f : Fault}
    (h : s.skipStatement fuel pos = .error f) :
    f = .outsideText ∧ (s.Placed pos → ¬ s.Sealed) := by
  induction fuel generalizing pos f with
  | zero => cases h
  | succ fuel ih =>
      have hGaps := skipGaps_reaches true false pos (s.rest pos)
      rw [skipStatement] at h
      dsimp only at h
      split at h
      · cases h
      split at h
      · cases h
      have hWord := hGaps.trans (commandWord_reaches _ _)
      split at h
      · have hBody := onward_of_reaches (hWord.trans (Condition.read_reaches _))
        simp only [bind, Except.bind] at h
        split at h
        · rename_i hSkip
          cases h
          exact ⟨(ih hSkip).1, fun hPlaced => (ih hSkip).2 (hBody.placed hPlaced)⟩
        rename_i hSkip
        have hAfter := hBody.trans (skipStatement_onward hSkip)
        split at h
        · rename_i hFollower
          cases h
          obtain ⟨hFault, hInvalid⟩ := commandAt_error hFollower
          exact ⟨hFault, fun hPlaced => (hAfter.placed hPlaced).not_sealed hInvalid⟩
        rename_i hFollower
        have hElse := hAfter.trans (commandAt_onward hFollower)
        split at h
        · split at h
          · rename_i hSkipElse
            cases h
            exact ⟨(ih hSkipElse).1, fun hPlaced => (ih hSkipElse).2 (hElse.placed hPlaced)⟩
          · cases h
        · cases h
      · cases h

/-! Landmarks lie at valid offsets. -/

theorem headerFrom_reaches {header : List Char} {before : Option Char} {hidden : Bool}
    {pos stop : Nat} {cs : List Char} (h : headerFrom header before hidden pos cs = some stop) :
    ∃ rest, Place.Reaches ⟨pos, cs⟩ ⟨stop, rest⟩ := by
  induction cs generalizing before hidden pos with
  | nil => simp [headerFrom] at h
  | cons c cs ih =>
      rw [headerFrom] at h
      split at h
      · rename_i hHere
        simp only [Bool.and_eq_true, List.isPrefixOf_iff_prefix] at hHere
        obtain ⟨rest, hRest⟩ := hHere.1.2
        cases h
        exact ⟨rest, header, hRest.symm, rfl⟩
      · obtain ⟨rest, hRest⟩ := ih h
        exact ⟨rest, hRest.cons⟩

theorem eventStart?_valid {s : Script} {event : EventName} {start : Nat}
    (h : s.eventStart? event = some start) : s.Valid start := by
  have hText : s.Holds ⟨0, s.text⟩ := by simp [Holds, from?]
  unfold eventStart? at h
  split at h
  · obtain ⟨rest, hRest⟩ := headerFrom_reaches h
    exact (hText.reaches hRest).valid
  · obtain ⟨rest, hRest⟩ := headerFrom_reaches h
    exact (hText.reaches hRest).valid
  · cases h

/-- Every word ends where text can be read. -/
theorem runsFrom_reaches {current : Option Run} {before : Option Char} {hidden : Bool} {pos : Nat}
    {cs : List Char} {r : Run} (hCurrent : ∀ run ∈ current, run.start + Text.width run.word = pos)
    (h : r ∈ runsFrom current before hidden pos cs) :
    ∃ rest, Place.Reaches ⟨pos, cs⟩ ⟨r.start + Text.width r.word, rest⟩ := by
  have hHere (cs : List Char) (hr : r ∈ current) :
      ∃ rest, Place.Reaches ⟨pos, cs⟩ ⟨r.start + Text.width r.word, rest⟩ := by
    rw [hCurrent r hr]
    exact ⟨cs, .refl _⟩
  induction cs generalizing current before hidden pos with
  | nil =>
      rw [runsFrom, Option.mem_toList] at h
      exact hHere [] h
  | cons c cs ih =>
      rw [runsFrom] at h
      dsimp only at h
      split at h
      · rw [List.mem_append, Option.mem_toList] at h
        rcases h with h | h
        · exact hHere _ h
        · obtain ⟨rest, hRest⟩ := ih (by simp) h (by simp)
          exact ⟨rest, hRest.cons⟩
      · have hLonger : ∀ run ∈ some { current.getD ⟨pos, hidden, []⟩ with
            word := (current.getD ⟨pos, hidden, []⟩).word ++ [c] },
            run.start + Text.width run.word = pos + c.utf8Size := by
          intro run hRun
          cases hRun
          cases current with
          | none => simp
          | some run =>
              have hRun := hCurrent run rfl
              simp only [Option.getD_some, Text.width_append, Text.width_cons, Text.width_nil]
              omega
        obtain ⟨rest, hRest⟩ := ih hLonger h (fun cs hr => by
          rw [hLonger r hr]
          exact ⟨cs, .refl _⟩)
        exact ⟨rest, hRest.cons⟩

/-- The place behind a word that sets a label can be read at. -/
theorem valid_of_mem_labels {s : Script} {entry : String × Nat}
    (h : entry ∈ s.runs.filterMap Run.label?) : s.Valid entry.2 := by
  have hText : s.Holds ⟨0, s.text⟩ := by simp [Holds, from?]
  obtain ⟨r, hRun, hLabel⟩ := List.mem_filterMap.mp h
  obtain ⟨rest, hRest⟩ := runsFrom_reaches (by simp) hRun
  have hTarget : entry.2 = r.start + Text.width r.word := by
    unfold Run.label? at hLabel
    split at hLabel
    · split at hLabel
      · cases hLabel
      · cases hLabel
        rfl
    · cases hLabel
  rw [hTarget]
  exact (hText.reaches hRest).valid

theorem label?_valid {s : Script} {name : String} {target : Nat}
    (h : s.label? name = some target) : s.Valid target := by
  obtain ⟨before, after, hSplit, _⟩ := List.lookup_eq_some_iff.mp h
  have hMem : (name, target) ∈ s.runs.filterMap Run.label? := by
    rw [hSplit]
    simp
  exact valid_of_mem_labels hMem

end Script
end EntityScript
