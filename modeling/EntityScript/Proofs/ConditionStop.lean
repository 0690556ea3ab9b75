import EntityScript.Proofs.Lookahead
import EntityScript.Proofs.ShortCircuit

/-! Where conditions stop. Reading a condition looks at the text alone: it stops behind the formula that
is spelled, and where none is, at the body or at the end of the line. Evaluating it, in whatever world,
and passing over it go to the same place. -/
namespace EntityScript

/-- The place is the end of the text or of a line, or a brace opens there. -/
def Place.StartsBody (p : Place) : Prop := p.EndsLine ∨ ∃ rest, p.rest = '\x7b' :: rest

namespace Condition

theorem bodyStart_startsBody (p : Place) : (bodyStart p).StartsBody := by
  rw [Place.StartsBody, Place.EndsLine, bodyStart_eq]
  induction p.rest with
  | nil => exact .inl (.inl rfl)
  | cons c cs ih =>
      rw [List.dropWhile_cons]
      split
      · exact ih
      · rename_i hStop
        by_cases hBrace : c = '\x7b'
        · exact .inr ⟨cs, by rw [hBrace]⟩
        · by_cases hLine : c = '\n'
          · exact .inl (.inr ⟨cs, by rw [hLine]⟩)
          · exact absurd (by simp [hBrace, hLine]) hStop

/-- What was read is whole, or reading has gone on to the body. -/
def StopsAtBody (read : Condition × Place) : Prop := read.1.breaks = true → read.2.StartsBody

theorem breakAt_stopsAtBody (unclosed : List Nat) (message : String) (p : Place) :
    StopsAtBody (breakAt unclosed message p) := fun _ => bodyStart_startsBody p

theorem readComparison_stopsAtBody (unclosed : List Nat) (p : Place) :
    StopsAtBody (readComparison unclosed p) := by
  unfold readComparison
  dsimp only
  split
  · split
    · split
      · split
        · intro h
          cases h
        · exact breakAt_stopsAtBody _ _ _
      · exact breakAt_stopsAtBody _ _ _
    · exact breakAt_stopsAtBody _ _ _
  · exact breakAt_stopsAtBody _ _ _

theorem close_stopsAtBody (message : String) {read : Condition × Place} (h : StopsAtBody read) :
    StopsAtBody (close message read) := by
  obtain ⟨c, p⟩ := read
  unfold close
  dsimp only
  split
  · exact h
  · rename_i hWhole
    split
    · exact fun hBreaks => absurd hBreaks hWhole
    · exact fun _ => bodyStart_startsBody _

mutual

theorem readItem_stopsAtBody (fuel : Nat) (p : Place) : StopsAtBody (readItem fuel p) := by
  cases fuel with
  | zero => exact breakAt_stopsAtBody _ _ _
  | succ fuel =>
      rw [readItem]
      dsimp only
      split
      · exact close_stopsAtBody _ (readItem_stopsAtBody fuel _)
      · split
        · exact readComparison_stopsAtBody _ _
        · split
          · split
            · exact close_stopsAtBody _ (readItem_stopsAtBody fuel _)
            · split
              · exact fun h => readParts_stopsAtBody fuel _ (.inl h)
              · rename_i hEnd
                exact fun _ => readParts_stopsAtBody fuel _ (.inr (by rw [hEnd]; rfl))
          · exact readComparison_stopsAtBody _ _
      · exact readComparison_stopsAtBody _ _

theorem readParts_stopsAtBody (fuel : Nat) (p : Place)
    (h : breaks.anyBreaks (readParts fuel p).1 = true ∨ (readParts fuel p).2.1.isSome = true) :
    (readParts fuel p).2.2.StartsBody := by
  revert h
  cases fuel with
  | zero => exact fun _ => bodyStart_startsBody _
  | succ fuel =>
      have hPart := readItem_stopsAtBody fuel p
      rw [readParts]
      dsimp only
      split
      · rename_i hBreaks
        exact fun _ => hPart hBreaks
      · rename_i hWhole
        split
        · rintro (hBreaks | hEnd)
          · exact readParts_stopsAtBody fuel _
              (.inl ((Bool.or_eq_true_iff.mp hBreaks).resolve_left hWhole))
          · exact readParts_stopsAtBody fuel _ (.inr hEnd)
        · rintro (hBreaks | hEnd)
          · exact absurd ((Bool.or_eq_true_iff.mp hBreaks).resolve_right Bool.false_ne_true) hWhole
          · cases hEnd
        · exact fun _ => bodyStart_startsBody _

end

/-- Reading stops behind the formula that is spelled; where none is, it goes on to the body. -/
theorem read_stops (p : Place) :
    (∃ f, Formula.Spelled f p (read p).2) ∨
      (∀ f q, ¬ Formula.Spelled f p q) ∧ (read p).2.StartsBody := by
  cases hBreaks : (read p).1.breaks with
  | false =>
      obtain ⟨f, q, hRead, hSpelled⟩ := spelled_of_readItem hBreaks
      exact .inl ⟨f, by rw [read, hRead]; exact hSpelled⟩
  | true =>
      refine .inr ⟨fun f q hSpelled => ?_, readItem_stopsAtBody _ p hBreaks⟩
      rw [read_spelled hSpelled, f.condition_breaks] at hBreaks
      cases hBreaks

end Condition

namespace Act

/-- Evaluating it moves there too, whatever comes of it. -/
theorem pos_of_condition {inv : Invocation} {p q : Progress} {r : Option Bool}
    (h : condition inv p = .ok r q) :
    q.pos = (Condition.read (inv.script.placeAt p.pos)).2.pos := by
  rw [condition_eq] at h
  split at h
  · cases h
    rfl
  · cases h

/-- The value that a result holds. -/
def returned? {α : Type} : EStateM.Result Halt Progress α → Option α
  | .ok a _ => some a
  | .error _ _ => none

theorem exists_ok_of_returned? {α : Type} {a : α} {result : EStateM.Result Halt Progress α}
    (h : returned? result = some a) : ∃ q, result = .ok a q := by
  cases result with
  | ok b q => exact ⟨q, congrArg (EStateM.Result.ok · q) (Option.some.inj h)⟩
  | error halt q => cases h

end Act

end EntityScript
