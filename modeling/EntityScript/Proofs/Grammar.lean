import EntityScript.Proofs.Names

/-! The grammar of conditions. A formula is what a condition says, apart from its parentheses; the
grammar tells from which place to which a text spells a formula. Reading follows it: where a formula is
spelled, reading comes to its tree and stops behind it, and where none is, reading breaks off. -/
namespace EntityScript

/-- The token at the first place, behind which lies the second. -/
structure Place.Lexes (p : Place) (t : Token) (q : Place) : Prop where
  token : (Script.nextToken p).token = t
  next : (Script.nextToken p).next = q

/-- The tokens from the first place to the second spell the comparison: an operand, a word for the
relation and another operand. -/
inductive Comparison.Spelled : Comparison → Place → Place → Prop where
  | words {p q r s : Place} {left spelled right : String} {relation : Relation}
      (hLeft : p.Lexes (.word left) q) (hRelation : q.Lexes (.word spelled) r)
      (hSpelled : Relation.parse? spelled = some relation) (hRight : r.Lexes (.word right) s) :
      Spelled ⟨left, relation, spelled, right, Condition.unclosedAt r (Script.nextToken r), s.pos⟩ p s

/-- A comparison, the negation of a formula, or all or any of several. -/
inductive Formula where
  | comparison (c : Comparison)
  | negation (inner : Formula)
  | junction (all : Bool) (parts : List Formula)

namespace Formula

/-- The condition that a formula is read as. -/
def condition : Formula → Condition
  | comparison c => .comparison c
  | negation inner => .negation inner.condition
  | junction all parts => .junction all (conditions parts)
where
  /-- The conditions that formulas are read as. -/
  conditions : List Formula → List Condition
    | [] => []
    | f :: fs => f.condition :: conditions fs

/-- The word that all or any of several formulas are introduced by. -/
def junctionWord (all : Bool) : String := if all then "and" else "or"

mutual

/-- The tokens from the first place to the second spell the formula. -/
inductive Spelled : Formula → Place → Place → Prop where
  | comparison {p q : Place} {c : Comparison} (hWords : c.Spelled p q) : Spelled (.comparison c) p q
  | group {p q r s : Place} {f : Formula} (hOpen : p.Lexes .opening q) (hInner : Spelled f q r)
      (hClose : r.Lexes .closing s) : Spelled f p s
  | negation {p q r s t : Place} {f : Formula} (hWord : p.Lexes (.word "not") q)
      (hOpen : q.Lexes .opening r) (hInner : Spelled f r s) (hClose : s.Lexes .closing t) :
      Spelled (.negation f) p t
  | junction {p q r s : Place} {all : Bool} {fs : List Formula}
      (hWord : p.Lexes (.word (junctionWord all)) q) (hOpen : q.Lexes .opening r)
      (hParts : SpelledParts fs r s) : Spelled (.junction all fs) p s

/-- The tokens spell one or more formulas, separated from one another, and the closing parenthesis. -/
inductive SpelledParts : List Formula → Place → Place → Prop where
  | last {p q r : Place} {f : Formula} (hPart : Spelled f p q) (hClose : q.Lexes .closing r) :
      SpelledParts [f] p r
  | more {p q r s : Place} {f : Formula} {fs : List Formula} (hPart : Spelled f p q)
      (hSeparator : q.Lexes .separator r) (hOthers : SpelledParts fs r s) :
      SpelledParts (f :: fs) p s

end

mutual

theorem condition_breaks (f : Formula) : f.condition.breaks = false := by
  cases f with
  | comparison c => rfl
  | negation inner => exact condition_breaks inner
  | junction all parts => exact conditions_break parts

theorem conditions_break (fs : List Formula) :
    Condition.breaks.anyBreaks (condition.conditions fs) = false := by
  cases fs with
  | nil => rfl
  | cons f fs =>
      rw [condition.conditions, Condition.breaks.anyBreaks, condition_breaks f, conditions_break fs]
      rfl

end

mutual

/-- Formulas that are read as the same condition are the same. -/
theorem eq_of_condition_eq {f g : Formula} (h : f.condition = g.condition) : f = g := by
  cases f with
  | comparison c =>
      cases g with
      | comparison c' => exact congrArg comparison (Condition.comparison.inj h)
      | negation => cases h
      | junction => cases h
  | negation inner =>
      cases g with
      | negation inner' => exact congrArg negation (eq_of_condition_eq (Condition.negation.inj h))
      | comparison => cases h
      | junction => cases h
  | junction all parts =>
      cases g with
      | junction all' parts' =>
          obtain ⟨rfl, hParts⟩ := Condition.junction.inj h
          exact congrArg (junction all) (eq_of_conditions_eq hParts)
      | comparison => cases h
      | negation => cases h

theorem eq_of_conditions_eq {fs gs : List Formula}
    (h : condition.conditions fs = condition.conditions gs) : fs = gs := by
  cases fs with
  | nil =>
      cases gs with
      | nil => rfl
      | cons => cases h
  | cons f fs =>
      cases gs with
      | nil => cases h
      | cons g gs =>
          obtain ⟨hPart, hOthers⟩ := List.cons.inj h
          rw [eq_of_condition_eq hPart, eq_of_conditions_eq hOthers]

end

end Formula

/-- The place is the end of a line. -/
def Place.EndsLine (p : Place) : Prop := p.rest = [] ∨ ∃ rest, p.rest = '\n' :: rest

/-- What may come of looking for a token in a text: nothing, a sign that is passed, a word, or a quoted
word that runs to the end of its line. -/
inductive Lexeme.Shape (text : List Char) : Lexeme → Prop where
  | stop (next : Place) : Shape text ⟨.stop, next, false⟩
  | sign (t : Token) {next : Place} (hPassed : next.rest.length < text.length) :
      Shape text ⟨t, next, false⟩
  | word (w : String) (next : Place) : Shape text ⟨.word w, next, false⟩
  | unclosed (w : String) {next : Place} (hEnd : next.EndsLine) : Shape text ⟨.word w, next, true⟩

namespace Script

/-- The inside of a quoted word ends at a quote or with its line. -/
theorem quotedBody_stop (pos : Nat) (cs : List Char) :
    (∃ rest, (quotedBody pos cs).2.rest = '"' :: rest) ∨ (quotedBody pos cs).2.EndsLine := by
  induction cs generalizing pos with
  | nil => exact .inr (.inl rfl)
  | cons c cs ih =>
      rw [quotedBody]
      split
      · rename_i hEnd
        simp only [Bool.or_eq_true, decide_eq_true_eq] at hEnd
        rcases hEnd with rfl | rfl
        · exact .inl ⟨cs, rfl⟩
        · exact .inr (.inr ⟨cs, rfl⟩)
      · exact ih _

theorem nextToken_shape (p : Place) : (nextToken p).Shape p.rest := by
  have hStart := (skipBlanks_reaches false p.pos p.rest).suffix.length_le
  dsimp only at hStart
  unfold nextToken
  dsimp only
  split
  · exact .stop _
  rename_i c cs hRest
  rw [hRest, List.length_cons] at hStart
  split
  · exact .stop _
  split
  · exact .sign _ hStart
  split
  · exact .sign _ hStart
  split
  · exact .sign _ hStart
  split
  · split
    · exact .word _ _
    · rename_i hOpen
      rcases quotedBody_stop ((skipBlanks false p.pos p.rest).pos + 1) cs with ⟨rest, hQuote⟩ | hEnd
      · exact absurd hQuote (hOpen rest)
      · exact .unclosed _ hEnd
  · split
    · rename_i hSeparator
      have hWord : (c :: cs).takeWhile isWordChar ≠ [] := by
        intro hNone
        simp [hNone] at hSeparator
      have hParts := congrArg List.length
        (List.takeWhile_append_dropWhile (p := isWordChar) (l := c :: cs))
      rw [List.length_append, List.length_cons] at hParts
      have hPositive := List.length_pos_iff.mpr hWord
      exact .sign _ (by dsimp only; omega)
    · exact .word _ _

/-- At the end of a line there is no token. -/
theorem nextToken_endsLine {p : Place} (h : p.EndsLine) : (nextToken p).token = .stop := by
  obtain ⟨pos, cs⟩ := p
  rcases h with hNone | ⟨rest, hNewline⟩
  · cases hNone
    rfl
  · cases hNewline
    rfl

end Script

namespace Place.Lexes

variable {p q r : Place} {t t' : Token}

theorem length_le (h : p.Lexes t q) : q.rest.length ≤ p.rest.length :=
  h.next ▸ (Script.nextToken_reaches p).suffix.length_le

/-- A parenthesis and a separator are passed. -/
theorem shortens (h : p.Lexes t q) (hStop : t ≠ .stop) (hWord : ∀ w, t ≠ .word w) :
    q.rest.length < p.rest.length := by
  have hShape := Script.nextToken_shape p
  obtain ⟨hToken, rfl⟩ := h
  generalize Script.nextToken p = l at hShape hToken ⊢
  cases hShape with
  | stop => exact absurd hToken.symm hStop
  | sign _ hPassed => exact hPassed
  | word w => exact absurd hToken.symm (hWord w)
  | unclosed w => exact absurd hToken.symm (hWord w)

/-- The quotes of a word are closed if another token follows on its line. -/
theorem unclosedAt_eq_nil (h : p.Lexes t q) (hNext : (Script.nextToken q).token ≠ .stop) :
    Condition.unclosedAt p (Script.nextToken p) = [] := by
  have hShape := Script.nextToken_shape p
  obtain ⟨-, rfl⟩ := h
  unfold Condition.unclosedAt
  generalize Script.nextToken p = l at hShape hNext ⊢
  cases hShape with
  | unclosed w hEnd => exact absurd (Script.nextToken_endsLine hEnd) hNext
  | stop => rfl
  | sign => rfl
  | word => rfl

end Place.Lexes

namespace Condition

variable {p q r s : Place}

/-- The three words of a comparison are read as it; whatever was met before is noted with it. -/
theorem readComparison_spelled (unclosed : List Nat) {c : Comparison} (h : c.Spelled p q) :
    readComparison unclosed p = (.comparison { c with unclosed := unclosed ++ c.unclosed }, q) := by
  cases h with
  | words hLeft hRelation hSpelled hRight =>
      have hLeftClosed := hLeft.unclosedAt_eq_nil (by simp [hRelation.token])
      have hRelationClosed := hRelation.unclosedAt_eq_nil (by simp [hRight.token])
      unfold readComparison
      dsimp only
      simp only [hLeft.token, hLeft.next, hRelation.token, hRelation.next, hSpelled, hRight.token,
        hRight.next, hLeftClosed, hRelationClosed, List.append_nil]

/-- What is read as a comparison is spelled there. -/
theorem spelled_of_readComparison {unclosed : List Nat}
    (h : (readComparison unclosed p).1.breaks = false) : ∃ c q, Comparison.Spelled c p q := by
  unfold readComparison at h
  dsimp only at h
  split at h
  · rename_i hLeft
    split at h
    · rename_i hRelation
      split at h
      · rename_i hSpelled
        split at h
        · rename_i hRight
          exact ⟨_, _, .words ⟨hLeft, rfl⟩ ⟨hRelation, rfl⟩ hSpelled ⟨hRight, rfl⟩⟩
        · cases h
      · cases h
    · cases h
  · cases h

/-- A comparison is read as such, whatever its first operand is. -/
theorem readItem_comparison (fuel : Nat) {c : Comparison} (h : c.Spelled p q) :
    readItem (fuel + 1) p = (.comparison c, q) := by
  have hRead := fun unclosed => readComparison_spelled unclosed h
  cases h with
  | words hLeft hRelation hSpelled hRight =>
      have hLeftClosed := hLeft.unclosedAt_eq_nil (by simp [hRelation.token])
      have hRelationClosed := hRelation.unclosedAt_eq_nil (by simp [hRight.token])
      rw [readItem]
      -- A connective's word is an operand here, since no parenthesis follows it.
      simp only [hLeft.token, hLeft.next, hRelation.token, hLeftClosed, hRelationClosed,
        List.append_nil, hRead, List.nil_append]
      split <;> simp

theorem close_closed (message : String) {c : Condition} (hc : c.breaks = false)
    (hClose : p.Lexes .closing q) : close message (c, p) = (c, q) := by
  simp only [close, hc, hClose.token, hClose.next]
  rfl

theorem closed_of_close {message : String} {read : Condition × Place}
    (h : (close message read).1.breaks = false) :
    read.1.breaks = false ∧ ∃ q, read.2.Lexes .closing q ∧ close message read = (read.1, q) := by
  obtain ⟨c, p⟩ := read
  unfold close at h ⊢
  dsimp only at h ⊢
  split at h
  · rename_i hBreaks
    rw [hBreaks] at h
    cases h
  · rename_i hWhole
    rw [Bool.not_eq_true] at hWhole
    split at h
    · rename_i hClosing
      exact ⟨hWhole, _, ⟨hClosing, rfl⟩, by simp only [hWhole]; rfl⟩
    · cases h

/-- The word that a connective is written as. -/
def Connective.word : Connective → String
  | .negation => "not"
  | .junction all => Formula.junctionWord all

theorem parse?_eq_some_iff {w : String} {connective : Connective} :
    Connective.parse? w = some connective ↔ w = connective.word := by
  constructor
  · intro h
    unfold Connective.parse? at h
    split at h
    · cases h
      assumption
    · split at h
      · cases h
        assumption
      · split at h
        · cases h
          assumption
        · cases h
  · rintro rfl
    cases connective with
    | negation => rfl
    | junction all => cases all <;> rfl

mutual

/-- A formula that is spelled at a place is read there, if there is fuel for what is left of the text:
a parenthesis is passed with every condition that is inside another one, and with every list. -/
theorem readItem_spelled {f : Formula} {p q : Place} (h : f.Spelled p q) (fuel : Nat)
    (hFuel : 2 * p.rest.length + 1 ≤ fuel) : readItem fuel p = (f.condition, q) := by
  obtain ⟨fuel, rfl⟩ : ∃ n, fuel = n + 1 := ⟨fuel - 1, by omega⟩
  cases h with
  | comparison hWords => exact readItem_comparison fuel hWords
  | group hOpen hInner hClose =>
      have hShorter := hOpen.shortens (by simp) (by simp)
      have hRead := readItem_spelled hInner fuel (by omega)
      rw [readItem]
      simp only [hOpen.token, hOpen.next, hRead]
      exact close_closed _ f.condition_breaks hClose
  | negation hWord hOpen hInner hClose =>
      have hBehind := hWord.length_le
      have hShorter := hOpen.shortens (by simp) (by simp)
      have hRead := readItem_spelled hInner fuel (by omega)
      rw [readItem]
      have hConnective : Connective.parse? "not" = some .negation := parse?_eq_some_iff.mpr rfl
      simp only [hWord.token, hWord.next, hConnective, hOpen.token, hOpen.next, hRead, if_true]
      exact close_closed _ (Formula.condition_breaks (.negation _)) hClose
  | @junction _ _ _ _ all _ hWord hOpen hParts =>
      have hBehind := hWord.length_le
      have hShorter := hOpen.shortens (by simp) (by simp)
      have hRead := readParts_spelled hParts fuel (by omega)
      rw [readItem]
      have hConnective : Connective.parse? (Formula.junctionWord all) = some (.junction all) :=
        parse?_eq_some_iff.mpr rfl
      simp only [hWord.token, hWord.next, hConnective, hOpen.token, hOpen.next, hRead, if_true]
      rfl

theorem readParts_spelled {fs : List Formula} {p q : Place} (h : Formula.SpelledParts fs p q)
    (fuel : Nat) (hFuel : 2 * p.rest.length + 2 ≤ fuel) :
    readParts fuel p = (Formula.condition.conditions fs, none, q) := by
  obtain ⟨fuel, rfl⟩ : ∃ n, fuel = n + 1 := ⟨fuel - 1, by omega⟩
  cases h with
  | last hPart hClose =>
      have hRead := readItem_spelled hPart fuel (by omega)
      rw [readParts]
      simp only [hRead, Formula.condition_breaks, hClose.token, hClose.next]
      rfl
  | more hPart hSeparator hOthers =>
      have hRead := readItem_spelled hPart fuel (by omega)
      have hBehind := (readItem_reaches fuel p).suffix.length_le
      rw [hRead] at hBehind
      dsimp only at hBehind
      have hShorter := hSeparator.shortens (by simp) (by simp)
      have hOthersRead := readParts_spelled hOthers fuel (by omega)
      rw [readParts]
      simp only [hRead, Formula.condition_breaks, hSeparator.token, hSeparator.next, hOthersRead]
      rfl

end

mutual

/-- What is read without a break is spelled there, whatever the fuel. -/
theorem spelled_of_readItem {fuel : Nat} {p : Place} (h : (readItem fuel p).1.breaks = false) :
    ∃ f q, readItem fuel p = (Formula.condition f, q) ∧ f.Spelled p q := by
  cases fuel with
  | zero => cases h
  | succ fuel =>
      have hComparison {unclosed : List Nat}
          (hRead : readItem (fuel + 1) p = readComparison unclosed p) :
          ∃ f q, readItem (fuel + 1) p = (Formula.condition f, q) ∧ f.Spelled p q := by
        rw [hRead] at h
        obtain ⟨c, q, hWords⟩ := spelled_of_readComparison h
        exact ⟨.comparison c, q, readItem_comparison fuel hWords, .comparison hWords⟩
      cases hToken : (Script.nextToken p).token with
      | opening =>
          have hRead : readItem (fuel + 1) p =
              close "expected ')'" (readItem fuel (Script.nextToken p).next) := by
            rw [readItem]
            simp only [hToken]
          rw [hRead] at h ⊢
          obtain ⟨hWhole, q, hClose, hClosed⟩ := closed_of_close h
          obtain ⟨f, r, hInside, hInner⟩ := spelled_of_readItem hWhole
          rw [hInside] at hClose hClosed
          exact ⟨f, q, hInside ▸ hClosed, .group ⟨hToken, rfl⟩ hInner hClose⟩
      | word w =>
          cases hConnective : Connective.parse? w with
          | none =>
              exact hComparison (by rw [readItem]; simp only [hToken, hConnective]; rfl)
          | some connective =>
              by_cases hOpen : (Script.nextToken (Script.nextToken p).next).token = .opening
              · cases connective with
                | negation =>
                    obtain rfl := parse?_eq_some_iff.mp hConnective
                    have hRead : readItem (fuel + 1) p = close "'not' takes exactly one condition"
                        (.negation (readItem fuel (Script.nextToken (Script.nextToken p).next).next).1,
                          (readItem fuel (Script.nextToken (Script.nextToken p).next).next).2) := by
                      rw [readItem]
                      simp only [hToken, hConnective, hOpen, if_true]
                    rw [hRead] at h ⊢
                    obtain ⟨hWhole, q, hClose, hClosed⟩ := closed_of_close h
                    obtain ⟨f, r, hInside, hInner⟩ := spelled_of_readItem hWhole
                    rw [hInside] at hClose hClosed ⊢
                    exact ⟨.negation f, q, hClosed, .negation ⟨hToken, rfl⟩ ⟨hOpen, rfl⟩ hInner hClose⟩
                | junction all =>
                    obtain rfl := parse?_eq_some_iff.mp hConnective
                    rw [readItem] at h ⊢
                    simp only [hToken, hConnective, hOpen, if_true] at h ⊢
                    cases hEnd : (readParts fuel
                        (Script.nextToken (Script.nextToken p).next).next).2.1 with
                    | some b =>
                        rw [hEnd] at h
                        cases h
                    | none =>
                        rw [hEnd] at h
                        obtain ⟨fs, q, hInside, hParts⟩ := spelled_of_readParts h hEnd
                        rw [hInside]
                        exact ⟨.junction all fs, q, rfl, .junction ⟨hToken, rfl⟩ ⟨hOpen, rfl⟩ hParts⟩
              · exact hComparison (by rw [readItem]; simp only [hToken, hConnective, hOpen]; rfl)
      | closing => exact hComparison (by rw [readItem]; simp only [hToken]; rfl)
      | separator => exact hComparison (by rw [readItem]; simp only [hToken]; rfl)
      | stop => exact hComparison (by rw [readItem]; simp only [hToken]; rfl)

theorem spelled_of_readParts {fuel : Nat} {p : Place}
    (h : breaks.anyBreaks (readParts fuel p).1 = false) (hEnd : (readParts fuel p).2.1 = none) :
    ∃ fs q, readParts fuel p = (Formula.condition.conditions fs, none, q) ∧
      Formula.SpelledParts fs p q := by
  cases fuel with
  | zero => cases hEnd
  | succ fuel =>
      have hPart : (readItem fuel p).1.breaks = false := by
        rw [readParts] at h
        dsimp only at h
        split at h
        · exact (Bool.or_eq_false_iff.mp h).1
        · split at h
          · exact (Bool.or_eq_false_iff.mp h).1
          · exact (Bool.or_eq_false_iff.mp h).1
          · exact (Bool.or_eq_false_iff.mp h).1
      obtain ⟨f, q, hRead, hSpelled⟩ := spelled_of_readItem hPart
      rw [readParts] at h hEnd ⊢
      simp only [hRead, f.condition_breaks, Bool.false_eq_true, if_false] at h hEnd ⊢
      cases hToken : (Script.nextToken q).token with
      | separator =>
          simp only [hToken] at h hEnd ⊢
          obtain ⟨fs, r, hOthersRead, hOthers⟩ :=
            spelled_of_readParts (Bool.or_eq_false_iff.mp h).2 hEnd
          rw [hOthersRead]
          exact ⟨f :: fs, r, rfl, .more hSpelled ⟨hToken, rfl⟩ hOthers⟩
      | closing => exact ⟨[f], _, rfl, .last hSpelled ⟨hToken, rfl⟩⟩
      | opening => simp [hToken] at hEnd
      | word w => simp [hToken] at hEnd
      | stop => simp [hToken] at hEnd

end

/-- Reading comes to the formula that is spelled and stops behind it. -/
theorem read_spelled {f : Formula} {p q : Place} (h : f.Spelled p q) : read p = (f.condition, q) :=
  readItem_spelled h _ (by omega)

/-- The grammar is unambiguous: at most one formula is spelled from a place on. -/
theorem spelled_unique {f g : Formula} {p q r : Place} (hf : f.Spelled p q) (hg : g.Spelled p r) :
    f = g ∧ q = r := by
  have hSame := (read_spelled hf).symm.trans (read_spelled hg)
  exact ⟨Formula.eq_of_condition_eq (Prod.mk.inj hSame).1, (Prod.mk.inj hSame).2⟩

/-- Reading breaks off where no formula is spelled. -/
theorem read_breaks {p : Place} (h : ∀ f q, ¬ Formula.Spelled f p q) : (read p).1.breaks = true := by
  rw [← Bool.not_eq_false]
  intro hWhole
  obtain ⟨f, q, -, hSpelled⟩ := spelled_of_readItem hWhole
  exact h f q hSpelled

end Condition

theorem Comparison.Spelled.unclosed_eq_nil {c : Comparison} {p q : Place} (h : c.Spelled p q)
    (hNext : (Script.nextToken q).token ≠ .stop) : c.unclosed = [] := by
  cases h with
  | words _ _ _ hRight => exact hRight.unclosedAt_eq_nil hNext

namespace Formula

mutual

/-- Reading a formula reports nothing if another token follows it on the line: a word whose closing
quote is missing would have run to the end of it. -/
theorem Spelled.notes_eq_nil : ∀ {f : Formula} {p q : Place}, f.Spelled p q →
    (Script.nextToken q).token ≠ .stop → f.condition.notes = []
  | _, _, _, .comparison hWords, hNext =>
      congrArg Condition.unclosedNotes (hWords.unclosed_eq_nil hNext)
  | _, _, _, .group _ hInner hClose, _ => hInner.notes_eq_nil (by simp [hClose.token])
  | _, _, _, .negation _ _ hInner hClose, _ => hInner.notes_eq_nil (by simp [hClose.token])
  | _, _, _, .junction _ _ hParts, _ => hParts.notes_eq_nil

theorem SpelledParts.notes_eq_nil : ∀ {fs : List Formula} {p q : Place}, SpelledParts fs p q →
    Condition.notes.allNotes (condition.conditions fs) = []
  | _, _, _, .last hPart hClose => by
      rw [condition.conditions, Condition.notes.allNotes,
        hPart.notes_eq_nil (by simp [hClose.token])]
      rfl
  | _, _, _, .more hPart hSeparator hOthers => by
      rw [condition.conditions, Condition.notes.allNotes,
        hPart.notes_eq_nil (by simp [hSeparator.token]), hOthers.notes_eq_nil]
      rfl

end

/-- Reading a formula reports nothing unless the formula is a comparison. -/
theorem Spelled.comparison_or_notes {f : Formula} {p q : Place} (h : f.Spelled p q) :
    (∃ c, f = .comparison c) ∨ f.condition.notes = [] := by
  cases h with
  | comparison => exact .inl ⟨_, rfl⟩
  | group _ hInner hClose => exact .inr (hInner.notes_eq_nil (by simp [hClose.token]))
  | negation _ _ hInner hClose => exact .inr (hInner.notes_eq_nil (by simp [hClose.token]))
  | junction _ _ hParts => exact .inr hParts.notes_eq_nil

end Formula

end EntityScript
