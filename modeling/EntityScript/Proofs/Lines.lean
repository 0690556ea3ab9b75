import EntityScript.Proofs.Grammar
import EntityScript.Proofs.Nesting

/-! Lines of a text. A scan that stays on its line leaves the end of the line where it was, and every
other place that it reaches lies beyond that end. -/
namespace EntityScript

namespace Place

variable {p q : Place}

theorem Along.lineEnd_eq (h : p.Along q) :
    Script.lineEnd q.pos q.rest = Script.lineEnd p.pos p.rest := by
  obtain ⟨passed, hRest, hPos, hNone⟩ := h
  obtain ⟨pos, cs⟩ := p
  obtain ⟨stop, rest⟩ := q
  simp only at hRest hPos ⊢
  subst hRest hPos
  induction passed generalizing pos with
  | nil => rfl
  | cons c passed ih =>
      simp only [List.mem_cons, not_or] at hNone
      rw [List.cons_append, Script.lineEnd, if_neg (Ne.symm hNone.1), ← ih hNone.2, Text.width_cons,
        Nat.add_assoc]

theorem lineEnd_endsLine (p : Place) : (Script.lineEnd p.pos p.rest).EndsLine := by
  obtain ⟨pos, cs⟩ := p
  simp only
  induction cs generalizing pos with
  | nil => exact .inl rfl
  | cons c cs ih =>
      rw [Script.lineEnd]
      split
      · rename_i hc
        exact .inr ⟨cs, by rw [hc]⟩
      · exact ih _

theorem Along.le_lineEnd (h : p.Along q) : q.pos ≤ (Script.lineEnd p.pos p.rest).pos := by
  rw [← h.lineEnd_eq]
  exact (Script.lineEnd_reaches q.pos q.rest).le

/-- A place further on lies on the line, or beyond its end. -/
theorem Reaches.along_or_lt (h : p.Reaches q) :
    p.Along q ∨ (Script.lineEnd p.pos p.rest).pos < q.pos := by
  obtain ⟨passed, hRest, hPos⟩ := h
  obtain ⟨pos, cs⟩ := p
  simp only at hRest hPos ⊢
  subst hRest
  induction passed generalizing pos with
  | nil => exact .inl ⟨[], rfl, hPos, List.not_mem_nil⟩
  | cons c passed ih =>
      rw [Text.width_cons] at hPos
      rw [List.cons_append, Script.lineEnd]
      split
      · rename_i hc
        subst hc
        refine .inr ?_
        rw [hPos]
        exact Nat.lt_add_of_pos_right (Nat.add_pos_left (Char.utf8Size_pos _) _)
      · rename_i hc
        refine (ih (pos + c.utf8Size) (by omega)).imp_left fun hRest => ?_
        exact hRest.cons hc

end Place

namespace Script

variable {s : Script} {pos next : Nat} {p q : Place}

/-- The offset at which the line of an offset ends. -/
def lineStop (s : Script) (pos : Nat) : Nat := (lineEnd pos (s.rest pos)).pos

theorem Holds.lineStop_eq (h : s.Holds p) : s.lineStop p.pos = (lineEnd p.pos p.rest).pos := by
  rw [lineStop, h.rest_eq]

theorem Holds.lineStop_along (hp : s.Holds p) (h : p.Along q) :
    s.lineStop q.pos = s.lineStop p.pos := by
  rw [(hp.reaches h.reaches).lineStop_eq, hp.lineStop_eq, h.lineEnd_eq]

theorem Valid.lineEnd_holds (h : s.Valid pos) : s.Holds (lineEnd pos (s.rest pos)) :=
  h.holds.reaches (lineEnd_reaches _ _)

theorem Valid.le_lineStop (_ : s.Valid pos) : pos ≤ s.lineStop pos := (lineEnd_reaches _ _).le

/-- An offset further on is on the same line exactly if it is not beyond the end of it. -/
theorem Valid.lineStop_eq_iff (h : s.Valid pos) (hNext : s.Valid next) (hLe : pos ≤ next) :
    s.lineStop next = s.lineStop pos ↔ next ≤ s.lineStop pos := by
  rcases (h.reaches hNext hLe).along_or_lt with hAlong | hBeyond
  · exact iff_of_true (h.holds.lineStop_along hAlong) hAlong.le_lineEnd
  · refine iff_of_false (fun hSame => ?_) (Nat.not_le.mpr hBeyond)
    have hEnd := hNext.le_lineStop
    rw [hSame] at hEnd
    exact absurd hBeyond (Nat.not_lt.mpr hEnd)

/-- Gaps that lead to the end of the line lead on from there. -/
theorem skipGaps_of_endsLine (remark : Bool) (pos : Nat) (cs : List Char)
    (hEnd : (skipGaps false remark pos cs).1.EndsLine) :
    skipGaps true remark pos cs = skipGaps true false (lineEnd pos cs).pos (lineEnd pos cs).rest := by
  induction cs generalizing remark pos with
  | nil => rfl
  | cons c cs ih =>
      by_cases hc : c = '\n'
      · subst hc
        simp [skipGaps, lineEnd]
      · simp only [skipGaps, lineEnd, if_neg hc] at hEnd ⊢
        split
        · rename_i hGap
          rw [if_pos hGap] at hEnd
          exact ih _ _ hEnd
        · rename_i hGap
          rw [if_neg hGap] at hEnd
          split
          · rename_i hSlash
            rw [if_pos hSlash] at hEnd
            simp only [Bool.and_eq_true, decide_eq_true_eq] at hSlash
            obtain ⟨rfl, _⟩ := hSlash
            exact ih _ _ hEnd
          · rename_i hSlash
            rw [if_neg hSlash] at hEnd
            rcases hEnd with hNone | ⟨rest, hNewline⟩
            · cases hNone
            · exact absurd (List.cons.inj hNewline).1 hc

/-- Where something else is on the line, the gaps lead there whether or not newlines are allowed. -/
theorem skipGaps_of_more (remark : Bool) (pos : Nat) (cs : List Char)
    (hMore : ¬ (skipGaps false remark pos cs).1.EndsLine) :
    skipGaps true remark pos cs = ((skipGaps false remark pos cs).1, none) := by
  induction cs generalizing remark pos with
  | nil => exact absurd (.inl rfl) hMore
  | cons c cs ih =>
      by_cases hc : c = '\n'
      · subst hc
        exact absurd (.inr ⟨cs, by simp [skipGaps]⟩) hMore
      · simp only [skipGaps, if_neg hc] at hMore ⊢
        split
        · rename_i hGap
          rw [if_pos hGap] at hMore
          exact ih _ _ hMore
        · rename_i hGap
          rw [if_neg hGap] at hMore
          split
          · rename_i hSlash
            rw [if_pos hSlash] at hMore
            exact ih _ _ hMore
          · rfl

/-- The next word ends on the line, or the end of the line is noted as crossed. -/
theorem nextWord_along_or_crosses (pos : Nat) (cs : List Char) :
    Place.Along ⟨pos, cs⟩ (nextWord pos cs).stop ∨
      ⟨(lineEnd pos cs).pos, "unexpected newline"⟩ ∈ (nextWord pos cs).notes := by
  have hWord := nextWord_along pos cs
  by_cases hEnd : (skipGaps false false pos cs).1.EndsLine
  · have hGaps := skipGaps_of_endsLine false pos cs hEnd
    have hLine := lineEnd_along pos cs
    rcases Place.lineEnd_endsLine ⟨pos, cs⟩ with hNone | ⟨rest, hNewline⟩
    · dsimp only at hNone
      have hStart : (skipGaps true false pos cs).1 = lineEnd pos cs := by
        rw [hGaps, hNone, skipGaps, ← hNone]
      exact .inl (hLine.trans (hStart ▸ hWord))
    · dsimp only at hNewline
      rw [hNewline, skipGaps, if_pos rfl, if_pos rfl] at hGaps
      refine .inr ?_
      simp [nextWord, hGaps]
  · rw [skipGaps_of_more _ _ _ hEnd] at hWord
    exact .inl ((skipGaps_along false pos cs).trans hWord)

end Script

end EntityScript
