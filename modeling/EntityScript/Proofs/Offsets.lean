import EntityScript.Act.Flow

/-! Offsets that text can be read at. Every scan that begins at such an offset stops at one, so the
cursor of a dispatch stays on the boundaries between characters. The one exception is a block that
runs into a quoted string which the text ends in. -/
namespace EntityScript

/-- The second place lies behind the first, past whole characters. -/
def Place.Reaches (p q : Place) : Prop :=
  ∃ passed, p.rest = passed ++ q.rest ∧ q.pos = p.pos + Text.width passed

namespace Place

theorem Reaches.refl (p : Place) : p.Reaches p := ⟨[], rfl, rfl⟩

theorem Reaches.trans {p q r : Place} (hpq : p.Reaches q) (hqr : q.Reaches r) : p.Reaches r := by
  obtain ⟨first, hFirst, hq⟩ := hpq
  obtain ⟨second, hSecond, hr⟩ := hqr
  refine ⟨first ++ second, ?_, ?_⟩
  · rw [hFirst, hSecond, List.append_assoc]
  · rw [hr, hq, Text.width_append, Nat.add_assoc]

/-- Passing one character first. -/
theorem Reaches.cons {pos : Nat} {c : Char} {cs : List Char} {q : Place}
    (h : Reaches ⟨pos + c.utf8Size, cs⟩ q) : Reaches ⟨pos, c :: cs⟩ q := by
  obtain ⟨passed, hRest, hPos⟩ := h
  refine ⟨c :: passed, by simp [← hRest], ?_⟩
  simp only [hPos, Text.width_cons]
  omega

theorem Reaches.le {p q : Place} (h : p.Reaches q) : p.pos ≤ q.pos := by
  obtain ⟨passed, _, hPos⟩ := h
  omega

/-- The second place lies behind the first on its line, up to the end of it. -/
def Along (p q : Place) : Prop :=
  ∃ passed, p.rest = passed ++ q.rest ∧ q.pos = p.pos + Text.width passed ∧ '\n' ∉ passed

theorem Along.reaches {p q : Place} (h : p.Along q) : p.Reaches q := by
  obtain ⟨passed, hRest, hPos, _⟩ := h
  exact ⟨passed, hRest, hPos⟩

theorem Along.refl (p : Place) : p.Along p := ⟨[], rfl, rfl, List.not_mem_nil⟩

theorem Along.trans {p q r : Place} (hpq : p.Along q) (hqr : q.Along r) : p.Along r := by
  obtain ⟨first, hFirst, hq, hNone⟩ := hpq
  obtain ⟨second, hSecond, hr, hNone'⟩ := hqr
  refine ⟨first ++ second, ?_, ?_, ?_⟩
  · rw [hFirst, hSecond, List.append_assoc]
  · rw [hr, hq, Text.width_append, Nat.add_assoc]
  · simp [hNone, hNone']

/-- Passing one character of the line first. -/
theorem Along.cons {pos : Nat} {c : Char} {cs : List Char} {q : Place} (hc : c ≠ '\n')
    (h : Along ⟨pos + c.utf8Size, cs⟩ q) : Along ⟨pos, c :: cs⟩ q := by
  obtain ⟨passed, hRest, hPos, hNone⟩ := h
  refine ⟨c :: passed, by simp [← hRest], ?_, by simp [hc.symm, hNone]⟩
  simp only [hPos, Text.width_cons]
  omega

end Place

namespace Script

/-- Text can be read from the offset on. -/
def Valid (s : Script) (pos : Nat) : Prop := (s.from? pos).isSome

/-- The place holds exactly what the script has from its offset on. -/
def Holds (s : Script) (p : Place) : Prop := s.from? p.pos = some p.rest

theorem valid_zero (s : Script) : s.Valid 0 := by
  simp [Valid, from?]

theorem Holds.valid {s : Script} {p : Place} (h : s.Holds p) : s.Valid p.pos := by
  simp only [Holds] at h
  simp [Valid, h]

/-- At a valid offset the script holds the rest of its text. -/
theorem Valid.holds {s : Script} {pos : Nat} (h : s.Valid pos) : s.Holds ⟨pos, s.rest pos⟩ := by
  obtain ⟨cs, hcs⟩ := Option.isSome_iff_exists.mp h
  simp [Holds, rest, hcs]

theorem Holds.rest_eq {s : Script} {p : Place} (h : s.Holds p) : s.rest p.pos = p.rest := by
  simp only [Holds] at h
  simp [rest, h]

theorem Holds.size_eq {s : Script} {p : Place} (h : s.Holds p) :
    s.size = p.pos + Text.width p.rest := by
  obtain ⟨before, hText, hWidth⟩ := Text.from?_eq_some h
  rw [size, hText, Text.width_append, hWidth]

/-- Where text is left, it can be read. -/
theorem valid_of_rest {s : Script} {pos : Nat} (h : s.rest pos ≠ []) : s.Valid pos := by
  cases hFrom : s.from? pos with
  | none => exact absurd (by simp [rest, hFrom]) h
  | some cs => simp [Valid, hFrom]

theorem Valid.le_size {s : Script} {pos : Nat} (h : s.Valid pos) : pos ≤ s.size := by
  have hSize := h.holds.size_eq
  simp only at hSize
  omega

/-- Places behind one that the script holds are held as well. -/
theorem Holds.reaches {s : Script} {p q : Place} (hp : s.Holds p) (h : p.Reaches q) :
    s.Holds q := by
  obtain ⟨before, hText, hWidth⟩ := Text.from?_eq_some hp
  obtain ⟨passed, hRest, hPos⟩ := h
  have hq : s.text = (before ++ passed) ++ q.rest := by rw [hText, hRest, List.append_assoc]
  have hw : Text.width (before ++ passed) = q.pos := by rw [Text.width_append, hWidth, hPos]
  rw [Holds, from?, hq, ← hw]
  exact Text.from?_width_append _ _

theorem size_valid (s : Script) : s.Valid s.size := by
  have h := Text.from?_width_append s.text []
  simp only [List.append_nil] at h
  simp [Valid, from?, size, h]

/-! Each scan stops behind the place that it begins at. -/

theorem lineEnd_along (pos : Nat) (cs : List Char) : Place.Along ⟨pos, cs⟩ (lineEnd pos cs) := by
  induction cs generalizing pos with
  | nil => exact .refl _
  | cons c cs ih =>
      rw [lineEnd]
      split
      · exact .refl _
      · rename_i hc
        exact .cons hc (ih _)

theorem lineEnd_reaches (pos : Nat) (cs : List Char) : Place.Reaches ⟨pos, cs⟩ (lineEnd pos cs) :=
  (lineEnd_along pos cs).reaches

theorem skipGaps_reaches (lines remark : Bool) (pos : Nat) (cs : List Char) :
    Place.Reaches ⟨pos, cs⟩ (skipGaps lines remark pos cs).1 := by
  induction cs generalizing remark pos with
  | nil => exact .refl _
  | cons c cs ih =>
      rw [skipGaps]
      split
      · rename_i hNewline
        subst hNewline
        split
        · exact .cons (c := '\n') (ih _ _)
        · exact .refl _
      · split
        · exact .cons (ih _ _)
        · split
          · rename_i hSlash
            simp only [Bool.and_eq_true, decide_eq_true_eq] at hSlash
            obtain ⟨rfl, _⟩ := hSlash
            exact .cons (c := '/') (ih _ _)
          · exact .refl _

theorem isGap_newline : isGap '\n' = true := by decide

/-- What no gap is lies on the line. -/
theorem ne_newline {c : Char} {slashes : Bool} (h : ¬ (isGap c || slashes) = true) : c ≠ '\n' := by
  rintro rfl
  exact h (by rw [isGap_newline, Bool.true_or])

/-- Without `lines` the gaps end with their line. -/
theorem skipGaps_along (remark : Bool) (pos : Nat) (cs : List Char) :
    Place.Along ⟨pos, cs⟩ (skipGaps false remark pos cs).1 := by
  induction cs generalizing remark pos with
  | nil => exact .refl _
  | cons c cs ih =>
      rw [skipGaps]
      split
      · exact .refl _
      · rename_i hc
        split
        · exact .cons hc (ih _ _)
        · split
          · rename_i hSlash
            simp only [Bool.and_eq_true, decide_eq_true_eq] at hSlash
            obtain ⟨rfl, _⟩ := hSlash
            exact .cons hc (ih _ _)
          · exact .refl _

theorem commandWord_along (pos : Nat) (cs : List Char) :
    Place.Along ⟨pos, cs⟩ (commandWord pos cs).stop := by
  induction cs generalizing pos with
  | nil => exact .refl _
  | cons c cs ih =>
      rw [commandWord]
      split
      · exact .refl _
      · rename_i hWord
        dsimp only
        split <;> exact .cons (ne_newline hWord) (ih _)

theorem commandWord_reaches (pos : Nat) (cs : List Char) :
    Place.Reaches ⟨pos, cs⟩ (commandWord pos cs).stop :=
  (commandWord_along pos cs).reaches

theorem bareWord_along (pos : Nat) (cs : List Char) :
    Place.Along ⟨pos, cs⟩ (bareWord pos cs).stop := by
  induction cs generalizing pos with
  | nil => exact .refl _
  | cons c cs ih =>
      rw [bareWord]
      split
      · exact .refl _
      · rename_i hWord
        dsimp only
        split <;> exact .cons (ne_newline hWord) (ih _)

theorem quotedBody_along (pos : Nat) (cs : List Char) :
    Place.Along ⟨pos, cs⟩ (quotedBody pos cs).2 := by
  induction cs generalizing pos with
  | nil => exact .refl _
  | cons c cs ih =>
      rw [quotedBody]
      split
      · exact .refl _
      · rename_i hInside
        simp only [Bool.or_eq_true, decide_eq_true_eq, not_or] at hInside
        exact .cons hInside.2 (ih _)

theorem quotedWord_along (pos : Nat) (cs : List Char) :
    Place.Along ⟨pos, cs⟩ (quotedWord pos cs).stop := by
  have hBody := quotedBody_along pos cs
  simp only [quotedWord]
  split
  · rename_i rest hRest
    exact hBody.trans ⟨['"'], by simp [hRest], rfl, by decide⟩
  · exact hBody

/-- A word runs on the line that it begins on. -/
theorem nextWord_along (pos : Nat) (cs : List Char) :
    (skipGaps true false pos cs).1.Along (nextWord pos cs).stop := by
  simp only [nextWord]
  split
  · rename_i rest hRest
    refine Place.Along.trans ⟨['"'], ?_, rfl, by decide⟩ (quotedWord_along _ rest)
    simp [hRest]
  · exact bareWord_along _ _

theorem nextWord_reaches (pos : Nat) (cs : List Char) :
    Place.Reaches ⟨pos, cs⟩ (nextWord pos cs).stop :=
  (skipGaps_reaches true false pos cs).trans (nextWord_along pos cs).reaches

theorem skipBlanks_along (remark : Bool) (pos : Nat) (cs : List Char) :
    Place.Along ⟨pos, cs⟩ (skipBlanks remark pos cs) := by
  induction cs generalizing remark pos with
  | nil => exact .refl _
  | cons c cs ih =>
      rw [skipBlanks]
      split
      · split
        · exact .refl _
        · rename_i hc
          exact .cons hc (ih _ _)
      · split
        · rename_i hBlank
          simp only [Bool.or_eq_true, decide_eq_true_eq] at hBlank
          have hSize : c.utf8Size = 1 := by rcases hBlank with (rfl | rfl) | rfl <;> rfl
          have hc : c ≠ '\n' := by rcases hBlank with (rfl | rfl) | rfl <;> decide
          exact .cons hc (hSize ▸ ih _ _)
        · split
          · rename_i hSlash
            simp only [Bool.and_eq_true, decide_eq_true_eq] at hSlash
            obtain ⟨rfl, _⟩ := hSlash
            exact .cons (c := '/') (by decide) (ih _ _)
          · exact .refl _

theorem skipBlanks_reaches (remark : Bool) (pos : Nat) (cs : List Char) :
    Place.Reaches ⟨pos, cs⟩ (skipBlanks remark pos cs) :=
  (skipBlanks_along remark pos cs).reaches

end Script
end EntityScript
