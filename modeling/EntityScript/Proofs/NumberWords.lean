import EntityScript.Command.Schedule
import EntityScript.Proofs.ConditionStop
import EntityScript.Proofs.Numerals

/-! Words that are taken as numbers. Whether a word is a number is asked of one reader, and what number it is of
the other: where two literals are compared, and where a word behind a bare `timer` counts the runs. The readers
agree on numerals. The name of an infinity or of not-a-number is a number as well, and is taken as zero. -/
namespace EntityScript

open Decimal

namespace Act

variable {inv : Invocation} {c : Comparison} {p q : Progress} {a b : String}

theorem isNumber_of_wholeNumber? {x : Float} (h : wholeNumber? a = some x) : isNumber a = true := by
  rw [isNumber, h]
  rfl

theorem wholeNumber?_of_isNumber (h : isNumber a = true) : ∃ x, wholeNumber? a = some x :=
  Option.isSome_iff_exists.mp h

/-- Evaluates a comparison up to its operands, taken as literals. -/
def literalTexts (c : Comparison) : Act (String × String) := do
  emit (Condition.unclosedNotes c.unclosed)
  modify fun p => { p with pos := c.stop }
  let a ← expand c.left
  let b ← expand c.right
  return (a, b)

/-- A comparison asks whether two literals are equal, which are these texts when it is evaluated. -/
structure Literals (inv : Invocation) (c : Comparison) (p : Progress) (a b : String) (q : Progress) :
    Prop where
  equal : c.relation = .equal
  left : namesVariable c.left = false
  right : namesVariable c.right = false
  texts : literalTexts c inv p = .ok (a, b) q

/-- Literals that are numbers are compared as what the other reader makes of them. -/
theorem Literals.compare (h : Literals inv c p a b q) (ha : isNumber a = true) (hb : isNumber b = true) :
    compare c inv p = .ok ⟨leadingNumber a == leadingNumber b, true⟩ q := by
  obtain ⟨_, t, hMet, hTexts⟩ := ok_of_bind h.texts
  change (expand c.left >>= _) inv { t with pos := c.stop } = _ at hTexts
  obtain ⟨a, r, hLeft, hTexts⟩ := ok_of_bind hTexts
  obtain ⟨b, r', hRight, hTexts⟩ := ok_of_bind hTexts
  cases hTexts
  have hOperands : operands c inv { t with pos := c.stop } =
      .ok (.number (leadingNumber a), .number (leadingNumber b)) q := by
    have hEquality : operands c = equalityOperands c.left c.right := by rw [operands, h.equal]
    have hNumbers : (isNumber a && isNumber b) = true := by rw [ha, hb]; rfl
    rw [hEquality, equalityOperands, if_neg (by simp [h.left]), if_neg (by simp [h.right]),
      bind_of_ok hLeft, bind_of_ok hRight, if_pos hNumbers]
    rfl
  have hHolds : holds? q.session.world.entities inv.entity c.relation (.number (leadingNumber a))
      (.number (leadingNumber b)) = some (leadingNumber a == leadingNumber b) := by
    rw [h.equal]
    rfl
  rw [compare_resolves (.typed hMet hOperands hHolds)]
  rfl

end Act

namespace Command

open Act

variable {inv : Invocation} {p q : Progress} {name count : String}

/-- Reads what stands behind the name of a timer. Gives the word that counts the runs, if it is a literal and
neither names the timer nor stops it, and a line follows. -/
def countWord (name : String) : Act (Option String) := do
  let _ ← flags
  let count ← word
  if isReference count || (name = "" && namesTimer count) || count = "off" then return none
  else
    let _ ← float
    return (← skipLine).map fun _ => count

/-- How often a timer runs for a number that counts its runs; one that would run zero times runs on. -/
def runs (x : Float) : Nat := (notBelowZero x).toUInt32.toNat

theorem countWord_parts (h : countWord name inv p = .ok (some count) q) :
    ∃ options p₁ p₂ amount p₃ pos, flags inv p = .ok options p₁ ∧ word inv p₁ = .ok count p₂ ∧
      isReference count = false ∧ (name = "" && namesTimer count) = false ∧ count ≠ "off" ∧
      float inv p₂ = .ok amount p₃ ∧ skipLine inv p₃ = .ok (some pos) q := by
  obtain ⟨options, p₁, hFlags, h⟩ := ok_of_bind h
  obtain ⟨w, p₂, hWord, h⟩ := ok_of_bind h
  split at h
  · cases h
  rename_i hOther
  rw [Bool.or_eq_true, Bool.or_eq_true, decide_eq_true_eq, not_or, not_or, Bool.not_eq_true,
    Bool.not_eq_true] at hOther
  obtain ⟨⟨hLiteral, hUnnamed⟩, hStarts⟩ := hOther
  obtain ⟨amount, p₃, hAmount, h⟩ := ok_of_bind h
  obtain ⟨line, p₄, hLine, h⟩ := ok_of_bind h
  cases line with
  | none => cases h
  | some pos =>
      cases h
      exact ⟨options, p₁, p₂, amount, p₃, pos, hFlags, hWord, hLiteral, hUnnamed, hStarts, hAmount, hLine⟩

/-- A word counts the runs of a bare `timer` if there is none or it is a number. -/
theorem isNumber_of_countWord (h : countWord "" inv p = .ok (some count) q) :
    count = "" ∨ isNumber count = true := by
  obtain ⟨-, -, -, -, -, -, -, -, hLiteral, hUnnamed, hStarts, -, -⟩ := countWord_parts h
  by_cases hNone : count = ""
  · exact .inl hNone
  · exact .inr (by simpa [namesTimer, hNone, hStarts, hLiteral] using hUnnamed)

/-- The timer is started for as many runs as the other reader makes of the word. -/
theorem runTimer_counts (hName : name ≠ "kill_local") (h : countWord name inv p = .ok (some count) q) :
    ∃ t q', runTimer name inv p = .ok .success q' ∧
      q'.session.world.timers = q.session.world.timers.start t ∧ t.count = runs (leadingNumber count) := by
  obtain ⟨_, _, _, _, _, _, hFlags, hCount, hLiteral, hUnnamed, hStarts, hAmount, hLine⟩ := countWord_parts h
  have hRead {p : Progress} : readFloat count inv p = .ok (leadingNumber count) p := by
    rw [readFloat, if_neg (by simp [hLiteral])]
    rfl
  rw [runTimer, if_neg hName, bind_of_ok hFlags, bind_of_ok hCount, if_neg (by simp [hUnnamed]),
    stopOrStart, if_neg hStarts, startTimer, bind_of_ok hRead, bind_of_ok hAmount, bind_of_ok hLine]
  exact ⟨_, _, rfl, rfl, rfl⟩

/-- A text is a number as a whole if it is a numeral or names an infinity or not-a-number. Read from its front
it is read whole and as the same number if it is no such name; of a name nothing is read, and it is taken as
zero. So two literals that are numerals are equal exactly if their numbers are, but any two names are equal.
A timer runs as often as the numeral says that counts its runs, and without end for a name. Behind a bare
`timer` the word that counts is a number, or there is none. -/
theorem numerals_read_alike (inv : Invocation) (s : String) (x : Float) :
    (wholeNumber? s = some x ↔ (∃ n : Numeral, n.Spelled s.toList ∧ x = n.toFloat) ∨ NonFinite s.toList x) ∧
    (wholeNumber? s = some x →
      ((∃ n, Numeral.leading? (Text.trimLeft s.toList) = some (n, [])) ↔ ¬ NonFinite s.toList x) ∧
      (leadingNumber s = x ↔ ¬ NonFinite s.toList x) ∧
      (NonFinite s.toList x → leadingNumber s = 0) ∧
      ∀ c p other q y, Literals inv c p s other q → wholeNumber? other = some y →
        compare c inv p = .ok ⟨leadingNumber s == leadingNumber other, true⟩ q ∧
        (¬ NonFinite s.toList x → ¬ NonFinite other.toList y →
          (leadingNumber s == leadingNumber other) = (x == y)) ∧
        (NonFinite s.toList x → NonFinite other.toList y →
          (leadingNumber s == leadingNumber other) = true)) ∧
    ∀ name p q, name ≠ "kill_local" → countWord name inv p = .ok (some s) q →
      (name = "" → s = "" ∨ ∃ y, wholeNumber? s = some y) ∧
      ∃ t q', runTimer name inv p = .ok .success q' ∧
        q'.session.world.timers = q.session.world.timers.start t ∧
        t.count = runs (leadingNumber s) ∧
        (wholeNumber? s = some x → ¬ NonFinite s.toList x → t.count = runs x) ∧
        (s = "" ∨ NonFinite s.toList x → t.count = 0) := by
  refine ⟨wholeNumber?_eq_some_iff, fun hs => ?_, ?_⟩
  · obtain ⟨hWhole, hSame, hZero⟩ := leadingNumber_of_wholeNumber? hs
    refine ⟨hWhole, hSame, hZero, ?_⟩
    intro c p other q y h hOther
    obtain ⟨-, hSameOther, hZeroOther⟩ := leadingNumber_of_wholeNumber? hOther
    refine ⟨h.compare (isNumber_of_wholeNumber? hs) (isNumber_of_wholeNumber? hOther), ?_, ?_⟩
    · intro hLeft hRight
      rw [hSame.mpr hLeft, hSameOther.mpr hRight]
    · intro hLeft hRight
      rw [hZero hLeft, hZeroOther hRight]
      decide
  · intro name p q hName h
    obtain ⟨t, q', hRun, hTimers, hCount⟩ := runTimer_counts hName h
    refine ⟨?_, t, q', hRun, hTimers, hCount, ?_, ?_⟩
    · rintro rfl
      exact (isNumber_of_countWord h).imp_right wholeNumber?_of_isNumber
    · intro hNumber hNumeral
      rw [hCount, (leadingNumber_of_wholeNumber? hNumber).2.1.mpr hNumeral]
    · intro hNothing
      have hRead : leadingNumber s = 0 := by
        rcases hNothing with rfl | hNamed
        · decide
        · exact (leadingNumber_nonFinite hNamed).2
      rw [hCount, hRead]
      decide

/-- A line that starts a timer for two runs. -/
def twiceInvocation : Invocation :=
  { script := .ofNormal "npc" " 2 1 accept", entity := ⟨0⟩, event := .fixed .init }

/-- The start of the line. -/
def twiceStart : Progress := ⟨⟨World.ofConfig {}, .silent, #[]⟩, 0, []⟩

set_option maxRecDepth 100000 in
/-- Ten in two spellings, two names, and a timer that runs twice. -/
theorem numerals_read_alike_tens :
    leadingNumber "1e1" = 10 ∧
    compare ⟨"1e1", .equal, "==", "10.0", [], 0⟩ twiceInvocation twiceStart = .ok ⟨true, true⟩ twiceStart ∧
    compare ⟨"inf", .equal, "==", "-nan", [], 0⟩ twiceInvocation twiceStart = .ok ⟨true, true⟩ twiceStart ∧
    ∃ (t : Timer) (q q' : Progress), runTimer "" twiceInvocation twiceStart = .ok .success q' ∧
      q'.session.world.timers = q.session.world.timers.start t ∧ t.count = 2 := by
  have hTen : wholeNumber? "1e1" = some 10 := by decide +kernel
  have hPointed : wholeNumber? "10.0" = some 10 := by decide +kernel
  have hTwo : wholeNumber? "2" = some 2 := by decide +kernel
  obtain ⟨-, hOfTen, -⟩ := numerals_read_alike twiceInvocation "1e1" 10
  obtain ⟨-, hOfPointed, -⟩ := numerals_read_alike twiceInvocation "10.0" 10
  obtain ⟨-, hOfTwo, hTimer⟩ := numerals_read_alike twiceInvocation "2" 2
  obtain ⟨hInfinity, hOfInf, -⟩ := numerals_read_alike twiceInvocation "inf" (1 / 0)
  have hTenNumeral : ¬ NonFinite "1e1".toList 10 :=
    (hOfTen hTen).1.mp ⟨⟨false, ['1'], [], 1⟩, by decide +kernel⟩
  have hPointedNumeral : ¬ NonFinite "10.0".toList 10 :=
    (hOfPointed hPointed).1.mp ⟨⟨false, ['1', '0'], ['0'], 0⟩, by decide +kernel⟩
  have hTwoNumeral : ¬ NonFinite "2".toList 2 :=
    (hOfTwo hTwo).1.mp ⟨⟨false, ['2'], [], 0⟩, by decide +kernel⟩
  have hInf : NonFinite "inf".toList (1 / 0) := .infinity .none (.inl rfl)
  have hNan : NonFinite "-nan".toList (0 / 0) := .nan .minus rfl
  have hTens : Literals twiceInvocation ⟨"1e1", .equal, "==", "10.0", [], 0⟩ twiceStart "1e1" "10.0"
      twiceStart := ⟨rfl, by decide, by decide, rfl⟩
  have hNames : Literals twiceInvocation ⟨"inf", .equal, "==", "-nan", [], 0⟩ twiceStart "inf" "-nan"
      twiceStart := ⟨rfl, by decide, by decide, rfl⟩
  have hLine : returned? (countWord "" twiceInvocation twiceStart) = some (some "2") := by decide +kernel
  obtain ⟨q, hCount⟩ := exists_ok_of_returned? hLine
  obtain ⟨-, hSame, -, hTenEqual⟩ := hOfTen hTen
  obtain ⟨-, -, -, hInfEqual⟩ := hOfInf (hInfinity.mpr (.inr hInf))
  obtain ⟨hNumbers, hEqual, -⟩ := hTenEqual _ _ _ _ _ hTens hPointed
  obtain ⟨hZeros, -, hNamed⟩ := hInfEqual _ _ _ _ _ hNames hNan.wholeNumber?
  obtain ⟨-, t, q', hRun, hTimers, -, hRuns, -⟩ := hTimer _ _ _ (by decide) hCount
  rw [hEqual hTenNumeral hPointedNumeral] at hNumbers
  rw [hNamed hInf hNan] at hZeros
  have hTwice : t.count = runs 2 := hRuns hTwo hTwoNumeral
  exact ⟨hSame.mpr hTenNumeral, hNumbers, hZeros, t, q, q', hRun, hTimers, hTwice.trans (by decide)⟩

end Command

end EntityScript
