import EntityScript.Proofs.Passes

/-! Reading a condition looks no further than the place where it stops. Two texts that are the same up to
there, and begin alike behind it, are read as the same condition. -/
namespace EntityScript

namespace Script

/-- A character that names consist of: none that ends or quotes a word, and no brace. -/
def isNameChar (c : Char) : Bool :=
  !isGap c && c ≠ '"' && c ≠ '~' && c ≠ '/' && c ≠ ',' && c ≠ '\x7b' && c ≠ '\x7d'

theorem isNameChar_iff {c : Char} : isNameChar c = true ↔ isGap c = false ∧ c ≠ '"' ∧ c ≠ '~' ∧
    c ≠ '/' ∧ c ≠ ',' ∧ c ≠ '\x7b' ∧ c ≠ '\x7d' := by
  simp [isNameChar, and_assoc]

theorem isNameChar_ne_newline {c : Char} (h : isNameChar c = true) : c ≠ '\n' := by
  rintro rfl
  exact absurd h (by decide)

theorem isNameChar_isWordChar {c : Char} (h : isNameChar c = true) : isWordChar c = true := by
  obtain ⟨hGap, _, _, _, hComma, hBrace, _⟩ := isNameChar_iff.mp h
  simp only [isGap, Bool.or_eq_false_iff, decide_eq_false_iff_not] at hGap
  obtain ⟨⟨hBlank, hOpen⟩, hClose⟩ := hGap
  simp only [isWordChar, Bool.and_eq_true, decide_eq_true_eq]
  exact ⟨⟨⟨⟨Char.not_le.mp hBlank, hOpen⟩, hClose⟩, hComma⟩, hBrace⟩

/-- The texts begin alike: with the same character, and with two slashes only together, or both with a
character for names. -/
inductive Akin : List Char → List Char → Prop where
  | nil : Akin [] []
  | same (c : Char) {cs cs' : List Char} (hSlash : cs'.head? = some '/' ↔ cs.head? = some '/') :
      Akin (c :: cs) (c :: cs')
  | named {c c' : Char} {cs cs' : List Char} (hc : isNameChar c = true)
      (hc' : isNameChar c' = true) : Akin (c :: cs) (c' :: cs')

theorem Akin.head_slash {t t' : List Char} (h : Akin t t') :
    t'.head? = some '/' ↔ t.head? = some '/' := by
  cases h with
  | nil => exact Iff.rfl
  | same c _ => exact Iff.rfl
  | named hc hc' =>
      have hNone := (isNameChar_iff.mp hc).2.2.2.1
      have hNone' := (isNameChar_iff.mp hc').2.2.2.1
      simp [hNone, hNone']

theorem Akin.append {t t' : List Char} (h : Akin t t') (a : List Char) : Akin (a ++ t) (a ++ t') := by
  induction a with
  | nil => exact h
  | cons c a ih => exact .same c ih.head_slash

end Script

/-- The two places lie before the same text, behind which one has `t` and the other `t'`. -/
def Place.Shares (t t' : List Char) (p p' : Place) : Prop :=
  ∃ shared, p.rest = shared ++ t ∧ p'.rest = shared ++ t'

namespace Script

variable {t t' : List Char}

/-- Nothing of a text is left behind its first character. -/
theorem not_suffix_of_passed {c : Char} {cs rest : List Char} (h : c :: cs <:+ rest) :
    ¬ rest <:+ cs := by
  intro hPassed
  have hLength := (h.trans hPassed).length_le
  rw [List.length_cons] at hLength
  omega

/-- Passing the characters that have a property which those of names have. -/
theorem Akin.takeWhile (h : Akin t t') {f : Char → Bool} (hf : ∀ c, isNameChar c = true → f c = true)
    {shared : List Char} (hStop : t <:+ (shared ++ t).dropWhile f) :
    (shared ++ t').takeWhile f = (shared ++ t).takeWhile f ∧
      ∃ rest, (shared ++ t).dropWhile f = rest ++ t ∧ (shared ++ t').dropWhile f = rest ++ t' := by
  induction shared with
  | nil =>
      cases h with
      | nil => exact ⟨rfl, [], rfl, rfl⟩
      | @same c cs cs' _ =>
          by_cases hc : f c = true
          · rw [List.nil_append, List.dropWhile_cons_of_pos hc] at hStop
            exact absurd (List.dropWhile_suffix f) (not_suffix_of_passed hStop)
          · simp [hc]
      | named hc _ =>
          rw [List.nil_append, List.dropWhile_cons_of_pos (hf _ hc)] at hStop
          exact absurd (List.dropWhile_suffix f) (not_suffix_of_passed hStop)
  | cons c shared ih =>
      by_cases hc : f c = true
      · simp only [List.cons_append, List.dropWhile_cons_of_pos hc,
          List.takeWhile_cons_of_pos hc] at hStop ⊢
        obtain ⟨hTake, hDrop⟩ := ih hStop
        exact ⟨by rw [hTake], hDrop⟩
      · exact ⟨by simp [hc], c :: shared, by simp [hc], by simp [hc]⟩

/-- A character inside a quoted word. -/
def isQuotable (c : Char) : Bool := c ≠ '"' && c ≠ '\n'

theorem quotedBody_eq (pos : Nat) (cs : List Char) : quotedBody pos cs = (cs.takeWhile isQuotable,
    ⟨pos + Text.width (cs.takeWhile isQuotable), cs.dropWhile isQuotable⟩) := by
  induction cs generalizing pos with
  | nil => rfl
  | cons c cs ih =>
      have hQuotable : isQuotable c = !(c = '"' || c = '\n') := by simp [isQuotable]
      by_cases hEnd : (c = '"' || c = '\n') = true
      · rw [hEnd] at hQuotable
        simp [quotedBody, hEnd, hQuotable]
      · rw [Bool.not_eq_true] at hEnd
        rw [hEnd] at hQuotable
        simp [quotedBody, hEnd, hQuotable, ih, Nat.add_assoc]

theorem isNameChar_isQuotable (c : Char) (h : isNameChar c = true) : isQuotable c = true := by
  simp [isQuotable, (isNameChar_iff.mp h).2.1, isNameChar_ne_newline h]

/-- How passing blanks goes on behind a character: in a remark or not, if it does not stop before it. -/
def blankStep (remark : Bool) (c : Char) (slash : Bool) : Option Bool :=
  if remark then if c = '\n' then none else some true
  else if c = ' ' || c = '\t' || c = '\r' then some false
  else if c = '/' && slash then some true
  else none

theorem skipBlanks_cons (remark : Bool) (pos : Nat) (c : Char) (cs : List Char) :
    skipBlanks remark pos (c :: cs) =
      match blankStep remark c (decide (cs.head? = some '/')) with
      | none => ⟨pos, c :: cs⟩
      | some next => skipBlanks next (pos + c.utf8Size) cs := by
  rw [skipBlanks, blankStep]
  cases remark with
  | true =>
      simp only [if_true]
      split <;> rfl
  | false =>
      simp only [Bool.false_eq_true, if_false]
      split
      · rename_i hBlank
        simp only [Bool.or_eq_true, decide_eq_true_eq] at hBlank
        rcases hBlank with (rfl | rfl) | rfl <;> rfl
      · split
        · rename_i hSlash
          simp only [Bool.and_eq_true, decide_eq_true_eq] at hSlash
          obtain ⟨rfl, _⟩ := hSlash
          rfl
        · rfl

theorem blankStep_name {c : Char} (h : isNameChar c = true) (remark slash : Bool) :
    blankStep remark c slash = if remark then some true else none := by
  obtain ⟨hGap, _, _, hSlash, _⟩ := isNameChar_iff.mp h
  have hBlank : c ≠ ' ' ∧ c ≠ '\t' ∧ c ≠ '\r' := by
    refine ⟨?_, ?_, ?_⟩ <;> (rintro rfl; exact absurd hGap (by decide))
  cases remark <;> simp [blankStep, isNameChar_ne_newline h, hBlank, hSlash]

theorem skipBlanks_shares (h : Akin t t') (remark : Bool) (pos pos' : Nat) (shared : List Char)
    (hStop : t <:+ (skipBlanks remark pos (shared ++ t)).rest) :
    (skipBlanks remark pos (shared ++ t)).Shares t t' (skipBlanks remark pos' (shared ++ t')) := by
  induction shared generalizing remark pos pos' with
  | nil =>
      cases h with
      | nil => exact ⟨[], rfl, rfl⟩
      | @same c cs cs' hSlash =>
          rw [List.nil_append, skipBlanks_cons] at hStop
          rw [List.nil_append, List.nil_append, skipBlanks_cons, skipBlanks_cons]
          simp only [hSlash]
          cases hStep : blankStep remark c (decide (cs.head? = some '/')) with
          | none => exact ⟨[], rfl, rfl⟩
          | some next =>
              rw [hStep] at hStop
              exact absurd (skipBlanks_reaches next _ cs).suffix (not_suffix_of_passed hStop)
      | @named c c' cs cs' hc hc' =>
          rw [List.nil_append, skipBlanks_cons, blankStep_name hc] at hStop
          rw [List.nil_append, List.nil_append, skipBlanks_cons, skipBlanks_cons, blankStep_name hc,
            blankStep_name hc']
          cases remark with
          | true => exact absurd (skipBlanks_reaches true _ cs).suffix (not_suffix_of_passed hStop)
          | false => exact ⟨[], rfl, rfl⟩
  | cons c shared ih =>
      rw [List.cons_append, skipBlanks_cons] at hStop
      rw [List.cons_append, List.cons_append, skipBlanks_cons, skipBlanks_cons]
      simp only [(h.append shared).head_slash]
      cases hStep : blankStep remark c (decide ((shared ++ t).head? = some '/')) with
      | none => exact ⟨c :: shared, rfl, rfl⟩
      | some next =>
          rw [hStep] at hStop
          exact ih next _ _ hStop

/-- Behind blanks there are no more blanks to pass. -/
theorem skipBlanks_again (remark : Bool) (pos : Nat) (cs : List Char) :
    skipBlanks false (skipBlanks remark pos cs).pos (skipBlanks remark pos cs).rest =
      skipBlanks remark pos cs := by
  induction cs generalizing remark pos with
  | nil => rfl
  | cons c cs ih =>
      rw [skipBlanks_cons]
      cases hStep : blankStep remark c (decide (cs.head? = some '/')) with
      | some next => exact ih next _
      | none =>
          have hStays : blankStep false c (decide (cs.head? = some '/')) = none := by
            cases remark with
            | false => exact hStep
            | true =>
                obtain rfl : c = '\n' := by simpa [blankStep] using hStep
                simp [blankStep]
          simp only [skipBlanks_cons, hStays]

/-- The next token is the one behind the blanks. -/
theorem nextToken_behind_blanks (p : Place) :
    nextToken p = nextToken (skipBlanks false p.pos p.rest) := by
  rw [nextToken, nextToken, skipBlanks_again]

/-- What the first character of a token makes of it. -/
inductive Lead where
  | stop
  | sign (t : Token)
  | quote
  | word

/-- What a token is that begins with a character. -/
def lead (c : Char) : Lead :=
  if c = '\n' || c = '\x7b' then .stop
  else if c = '(' then .sign .opening
  else if c = ')' then .sign .closing
  else if c = ',' then .sign .separator
  else if c = '"' then .quote
  else .word

/-- The place behind a closing quote, and whether that is missing. -/
def closeQuote (pos : Nat) : List Char → Place × Bool
  | [] => (⟨pos, []⟩, true)
  | c :: cs => if c = '"' then (⟨pos + 1, cs⟩, false) else (⟨pos, c :: cs⟩, true)

/-- The token that is read behind an opening quote. -/
def quotedToken (pos : Nat) (cs : List Char) : Lexeme :=
  let body := cs.takeWhile isQuotable
  let closed := closeQuote (pos + Text.width body) (cs.dropWhile isQuotable)
  ⟨.word (String.ofList body), closed.1, closed.2⟩

/-- The token that is read without quotes. -/
def bareToken (pos : Nat) (cs : List Char) : Lexeme :=
  let w := cs.takeWhile isWordChar
  ⟨if w = ['&', '&'] || w = ['|', '|'] then .separator else .word (String.ofList w),
    ⟨pos + Text.width w, cs.dropWhile isWordChar⟩, false⟩

/-- The token at a place that no blanks stand at. -/
theorem nextToken_cons {p : Place} (hBlanks : skipBlanks false p.pos p.rest = p) {c : Char}
    {cs : List Char} (hRest : p.rest = c :: cs) :
    nextToken p = match lead c with
      | .stop => ⟨.stop, p, false⟩
      | .sign t => ⟨t, ⟨p.pos + 1, cs⟩, false⟩
      | .quote => quotedToken (p.pos + 1) cs
      | .word => bareToken p.pos (c :: cs) := by
  obtain ⟨pos, rest⟩ := p
  dsimp only at hRest hBlanks ⊢
  subst hRest
  simp only [nextToken, hBlanks, lead]
  split
  · rfl
  split
  · rfl
  split
  · rfl
  split
  · rfl
  split
  · simp only [quotedBody_eq, quotedToken]
    cases cs.dropWhile isQuotable with
    | nil => rfl
    | cons d cs =>
        by_cases hQuote : d = '"'
        · subst hQuote
          rfl
        · simp [closeQuote, hQuote]
  · simp only [bareToken]
    split <;> rfl

theorem lead_name {c : Char} (h : isNameChar c = true) : lead c = .word := by
  obtain ⟨hGap, hQuote, _, _, hComma, hBrace, _⟩ := isNameChar_iff.mp h
  have hOpen : c ≠ '(' := by
    rintro rfl
    exact absurd hGap (by decide)
  have hClose : c ≠ ')' := by
    rintro rfl
    exact absurd hGap (by decide)
  simp [lead, isNameChar_ne_newline h, hQuote, hComma, hBrace, hOpen, hClose]

theorem bareToken_shares (h : Akin t t') (pos pos' : Nat) (shared : List Char)
    (hStop : t <:+ (bareToken pos (shared ++ t)).next.rest) :
    (bareToken pos' (shared ++ t')).token = (bareToken pos (shared ++ t)).token ∧
      (bareToken pos (shared ++ t)).next.Shares t t' (bareToken pos' (shared ++ t')).next := by
  obtain ⟨hTake, rest, hDrop, hDrop'⟩ := h.takeWhile (fun _ => isNameChar_isWordChar) hStop
  exact ⟨by simp only [bareToken, hTake], rest, hDrop, hDrop'⟩

theorem closeQuote_suffix (pos : Nat) (cs : List Char) : (closeQuote pos cs).1.rest <:+ cs := by
  cases cs with
  | nil => exact List.suffix_refl _
  | cons c cs =>
      rw [closeQuote]
      split
      · exact List.suffix_cons _ _
      · exact List.suffix_refl _

theorem closeQuote_shares (h : Akin t t') (pos pos' : Nat) {shared : List Char}
    (hStop : t <:+ (closeQuote pos (shared ++ t)).1.rest) :
    (closeQuote pos (shared ++ t)).1.Shares t t' (closeQuote pos' (shared ++ t')).1 := by
  cases shared with
  | nil =>
      cases h with
      | nil => exact ⟨[], rfl, rfl⟩
      | @same c cs cs' _ =>
          by_cases hc : c = '"'
          · subst hc
            exact absurd (List.suffix_refl cs) (not_suffix_of_passed hStop)
          · exact ⟨[], by simp [closeQuote, hc], by simp [closeQuote, hc]⟩
      | named hc hc' =>
          have hQuote := (isNameChar_iff.mp hc).2.1
          have hQuote' := (isNameChar_iff.mp hc').2.1
          exact ⟨[], by simp [closeQuote, hQuote], by simp [closeQuote, hQuote']⟩
  | cons c shared =>
      by_cases hc : c = '"'
      · exact ⟨shared, by simp [closeQuote, hc], by simp [closeQuote, hc]⟩
      · exact ⟨c :: shared, by simp [closeQuote, hc], by simp [closeQuote, hc]⟩

theorem quotedToken_shares (h : Akin t t') (pos pos' : Nat) {shared : List Char}
    (hStop : t <:+ (quotedToken pos (shared ++ t)).next.rest) :
    (quotedToken pos' (shared ++ t')).token = (quotedToken pos (shared ++ t)).token ∧
      (quotedToken pos (shared ++ t)).next.Shares t t' (quotedToken pos' (shared ++ t')).next := by
  obtain ⟨hTake, rest, hDrop, hDrop'⟩ := h.takeWhile isNameChar_isQuotable
    (hStop.trans (closeQuote_suffix _ _))
  simp only [quotedToken, hTake, hDrop, hDrop'] at hStop ⊢
  exact ⟨trivial, closeQuote_shares h _ _ hStop⟩

theorem nextToken_nil {p : Place} (hRest : p.rest = []) : nextToken p = ⟨.stop, p, false⟩ := by
  obtain ⟨pos, rest⟩ := p
  subst hRest
  rfl

/-- A token whose end lies before the texts differ is the same in both. -/
theorem nextToken_shares (h : Akin t t') {p p' : Place} (hShares : p.Shares t t' p')
    (hStop : t <:+ (nextToken p).next.rest) :
    (nextToken p').token = (nextToken p).token ∧ (nextToken p).next.Shares t t' (nextToken p').next := by
  obtain ⟨before, hRest, hRest'⟩ := hShares
  have hAgain := skipBlanks_again false p.pos p.rest
  have hAgain' := skipBlanks_again false p'.pos p'.rest
  rw [nextToken_behind_blanks p] at hStop ⊢
  rw [nextToken_behind_blanks p']
  have hBlanks := skipBlanks_shares h false p.pos p'.pos before
    (by rw [← hRest]; exact hStop.trans (nextToken_reaches _).suffix)
  rw [← hRest, ← hRest'] at hBlanks
  generalize skipBlanks false p.pos p.rest = start at hStop hBlanks hAgain ⊢
  generalize skipBlanks false p'.pos p'.rest = start' at hBlanks hAgain' ⊢
  obtain ⟨shared, hStart, hStart'⟩ := hBlanks
  cases shared with
  | nil =>
      cases h with
      | nil =>
          rw [nextToken_nil hStart, nextToken_nil hStart']
          exact ⟨rfl, [], hStart, hStart'⟩
      | @same c cs cs' hSlash =>
          have hToken := nextToken_cons hAgain hStart
          have hToken' := nextToken_cons hAgain' hStart'
          rw [hToken] at hStop ⊢
          rw [hToken']
          cases hLead : lead c with
          | stop => exact ⟨rfl, [], hStart, hStart'⟩
          | sign s =>
              rw [hLead] at hStop
              exact absurd (List.suffix_refl cs) (not_suffix_of_passed hStop)
          | quote =>
              rw [hLead] at hStop
              exact absurd ((closeQuote_suffix _ _).trans (List.dropWhile_suffix _))
                (not_suffix_of_passed hStop)
          | word =>
              rw [hLead] at hStop
              exact bareToken_shares (.same c hSlash) _ _ [] hStop
      | @named c c' cs cs' hc hc' =>
          rw [nextToken_cons hAgain hStart, lead_name hc] at hStop ⊢
          rw [nextToken_cons hAgain' hStart', lead_name hc']
          exact bareToken_shares (.named hc hc') _ _ [] hStop
  | cons c shared =>
      rw [nextToken_cons hAgain hStart] at hStop ⊢
      rw [nextToken_cons hAgain' hStart']
      cases hLead : lead c with
      | stop => exact ⟨rfl, c :: shared, hStart, hStart'⟩
      | sign s => exact ⟨rfl, shared, rfl, rfl⟩
      | quote =>
          rw [hLead] at hStop
          exact quotedToken_shares h _ _ hStop
      | word =>
          rw [hLead] at hStop
          exact bareToken_shares h _ _ (c :: shared) hStop

end Script

namespace Condition

mutual

/-- The conditions are the same apart from the offsets in them and from what their breaks report. -/
inductive Matches : Condition → Condition → Prop where
  | comparison {c c' : Comparison} (hLeft : c'.left = c.left) (hRelation : c'.relation = c.relation)
      (hRight : c'.right = c.right) : Matches (.comparison c) (.comparison c')
  | negation {c c' : Condition} (hInner : Matches c c') : Matches (.negation c) (.negation c')
  | junction (all : Bool) {cs cs' : List Condition} (hParts : MatchesParts cs cs') :
      Matches (.junction all cs) (.junction all cs')
  | broken (b b' : Break) : Matches (.broken b) (.broken b')
  | cut {c c' : Condition} (b b' : Break) (hInner : Matches c c') : Matches (.cut c b) (.cut c' b')

/-- The same for the conditions of two lists, one by one. -/
inductive MatchesParts : List Condition → List Condition → Prop where
  | nil : MatchesParts [] []
  | cons {c c' : Condition} {cs cs' : List Condition} (hPart : Matches c c')
      (hOthers : MatchesParts cs cs') : MatchesParts (c :: cs) (c' :: cs')

end

mutual

theorem Matches.breaks {c c' : Condition} (h : Matches c c') : c'.breaks = c.breaks := by
  cases h with
  | comparison => rfl
  | negation hInner => exact hInner.breaks
  | junction all hParts => exact hParts.breaks
  | broken => rfl
  | cut => rfl

theorem MatchesParts.breaks {cs cs' : List Condition} (h : MatchesParts cs cs') :
    Condition.breaks.anyBreaks cs' = Condition.breaks.anyBreaks cs := by
  cases h with
  | nil => rfl
  | cons hPart hOthers =>
      rw [Condition.breaks.anyBreaks, Condition.breaks.anyBreaks, hPart.breaks, hOthers.breaks]

end

variable {t t' : List Char} {p p' : Place}

/-- Two readings come to the same condition, and stop before the places where the texts differ. -/
structure ReadAlike (t t' : List Char) (r r' : Condition × Place) : Prop where
  condition : r.1.Matches r'.1
  stop : r.2.Shares t t' r'.2

theorem bodyStart_eq (p : Place) : (bodyStart p).rest =
    p.rest.dropWhile fun c => c ≠ '\x7b' && c ≠ '\n' := by
  apply List.append_cancel_left
  exact (List.prefix_iff_eq_append.mp (List.takeWhile_prefix _)).trans
    List.takeWhile_append_dropWhile.symm

theorem bodyStart_shares (h : Script.Akin t t') (hShares : p.Shares t t' p')
    (hStop : t <:+ (bodyStart p).rest) : (bodyStart p).Shares t t' (bodyStart p') := by
  obtain ⟨shared, hRest, hRest'⟩ := hShares
  rw [bodyStart_eq, hRest] at hStop
  obtain ⟨-, rest, hBody, hBody'⟩ := h.takeWhile (fun c hc => by
    obtain ⟨_, _, _, _, _, hBrace, _⟩ := Script.isNameChar_iff.mp hc
    simp [hBrace, Script.isNameChar_ne_newline hc]) hStop
  exact ⟨rest, by rw [bodyStart_eq, hRest, hBody], by rw [bodyStart_eq, hRest', hBody']⟩

theorem breakAt_alike (h : Script.Akin t t') {unclosed unclosed' : List Nat} {message message' : String}
    (hShares : p.Shares t t' p') (hStop : t <:+ (breakAt unclosed message p).2.rest) :
    ReadAlike t t' (breakAt unclosed message p) (breakAt unclosed' message' p') :=
  ⟨.broken _ _, bodyStart_shares h hShares hStop⟩

/-- A comparison that begins with a word goes on behind its second token. -/
theorem readComparison_behind_word (unclosed : List Nat) {p : Place} {left : String}
    (hWord : (Script.nextToken p).token = .word left) :
    (readComparison unclosed p).2.rest <:+ (Script.nextToken (Script.nextToken p).next).next.rest := by
  have hBehind (q : Place) : (bodyStart q).rest <:+ q.rest := (bodyStart_reaches q).suffix
  have hNext (q : Place) : (Script.nextToken q).next.rest <:+ q.rest :=
    (Script.nextToken_reaches q).suffix
  unfold readComparison
  dsimp only
  rw [hWord]
  dsimp only
  split
  · split
    · split
      · exact hNext _
      · exact (hBehind _).trans (hNext _)
    · exact hBehind _
  · exact hBehind _

/-- A comparison goes on behind its first token. -/
theorem readComparison_behind (unclosed : List Nat) (p : Place) :
    (readComparison unclosed p).2.rest <:+ (Script.nextToken p).next.rest := by
  by_cases hWord : ∃ left, (Script.nextToken p).token = .word left
  · obtain ⟨left, hWord⟩ := hWord
    exact (readComparison_behind_word unclosed hWord).trans (Script.nextToken_reaches _).suffix
  · unfold readComparison
    dsimp only
    split
    · rename_i left hLeft
      exact absurd ⟨left, hLeft⟩ hWord
    · exact (bodyStart_reaches _).suffix

theorem readComparison_alike (h : Script.Akin t t') (unclosed unclosed' : List Nat)
    (hShares : p.Shares t t' p') (hStop : t <:+ (readComparison unclosed p).2.rest) :
    ReadAlike t t' (readComparison unclosed p) (readComparison unclosed' p') := by
  have hSecond {left : String} (hWord : (Script.nextToken p).token = .word left) :=
    hStop.trans (readComparison_behind_word unclosed hWord)
  obtain ⟨hToken, hShares⟩ := Script.nextToken_shares h hShares
    (hStop.trans (readComparison_behind unclosed p))
  unfold readComparison at hStop ⊢
  dsimp only at hStop ⊢
  rw [hToken]
  split at hStop
  · rename_i left hWord
    obtain ⟨hToken, hShares⟩ := Script.nextToken_shares h hShares (hSecond hWord)
    rw [hToken]
    split at hStop
    · split at hStop
      · have hRight : t <:+ (Script.nextToken
            (Script.nextToken (Script.nextToken p).next).next).next.rest := by
          split at hStop
          · exact hStop
          · exact hStop.trans (bodyStart_reaches _).suffix
        obtain ⟨hToken, hShares⟩ := Script.nextToken_shares h hShares hRight
        rw [hToken]
        split at hStop
        · exact ⟨.comparison rfl rfl rfl, hShares⟩
        · exact breakAt_alike h hShares hStop
      · exact breakAt_alike h hShares hStop
    · exact breakAt_alike h hShares hStop
  · exact breakAt_alike h hShares hStop

theorem close_alike (h : Script.Akin t t') (message : String) {c c' : Condition} (hMatches : c.Matches c')
    (hShares : p.Shares t t' p') (hStop : t <:+ (close message (c, p)).2.rest) :
    ReadAlike t t' (close message (c, p)) (close message (c', p')) := by
  unfold close at hStop ⊢
  dsimp only at hStop ⊢
  rw [hMatches.breaks]
  by_cases hBreaks : c.breaks = true
  · rw [if_pos hBreaks, if_pos hBreaks]
    exact ⟨hMatches, hShares⟩
  · rw [if_neg hBreaks] at hStop
    rw [if_neg hBreaks, if_neg hBreaks]
    have hToken : t <:+ (Script.nextToken p).next.rest := by
      split at hStop
      · exact hStop
      · exact hStop.trans (bodyStart_reaches _).suffix
    obtain ⟨hToken, hShares⟩ := Script.nextToken_shares h hShares hToken
    rw [hToken]
    split at hStop
    · exact ⟨hMatches, hShares⟩
    · exact ⟨.cut _ _ hMatches, bodyStart_shares h hShares hStop⟩

/-- A condition goes on behind its first token. -/
theorem readItem_behind (fuel : Nat) (p : Place) :
    (readItem (fuel + 1) p).2.rest <:+ (Script.nextToken p).next.rest := by
  have hNext (q : Place) : (Script.nextToken q).next.rest <:+ q.rest :=
    (Script.nextToken_reaches q).suffix
  rw [readItem]
  dsimp only
  split
  · exact ((readItem_reaches fuel _).trans (close_reaches _ _ _)).suffix
  · split
    · exact readComparison_behind _ _
    · split
      · split
        · exact ((readItem_reaches fuel _).trans (close_reaches _ _ _)).suffix.trans (hNext _)
        · have hParts := (readParts_reaches fuel (Script.nextToken (Script.nextToken p).next).next).suffix
          split <;> exact hParts.trans (hNext _)
      · exact readComparison_behind _ _
  · exact readComparison_behind _ _

mutual

theorem readItem_alike (h : Script.Akin t t') (fuel : Nat) {p p' : Place} (hShares : p.Shares t t' p')
    (hStop : t <:+ (readItem fuel p).2.rest) :
    ReadAlike t t' (readItem fuel p) (readItem fuel p') := by
  cases fuel with
  | zero => exact breakAt_alike h hShares hStop
  | succ fuel =>
      obtain ⟨hToken, hNext⟩ := Script.nextToken_shares h hShares
        (hStop.trans (readItem_behind fuel p))
      rw [readItem] at hStop
      rw [readItem, readItem]
      dsimp only at hStop ⊢
      rw [hToken]
      split at hStop
      · have hInner := readItem_alike h fuel hNext (hStop.trans (close_reaches _ _ _).suffix)
        exact close_alike h _ hInner.condition hInner.stop hStop
      · split at hStop
        · exact readComparison_alike h _ _ hShares hStop
        · have hInside : (Script.nextToken (Script.nextToken p).next).token = .opening →
              t <:+ (Script.nextToken (Script.nextToken p).next).next.rest := by
            intro hOpening
            rw [if_pos hOpening] at hStop
            split at hStop
            · exact hStop.trans ((readItem_reaches fuel _).trans (close_reaches _ _ _)).suffix
            · have hParts := (readParts_reaches fuel
                (Script.nextToken (Script.nextToken p).next).next).suffix
              split at hStop <;> exact hStop.trans hParts
          by_cases hOpening : (Script.nextToken (Script.nextToken p).next).token = .opening
          · obtain ⟨hToken, hNext⟩ := Script.nextToken_shares h hNext (hInside hOpening)
            rw [if_pos hOpening] at hStop
            rw [if_pos hOpening, if_pos (hToken.trans hOpening)]
            split at hStop
            · have hInner := readItem_alike h fuel hNext (hStop.trans (close_reaches _ _ _).suffix)
              exact close_alike h _ (.negation hInner.condition) hInner.stop hStop
            · rename_i all _
              have hEnd : t <:+ (readParts fuel
                  (Script.nextToken (Script.nextToken p).next).next).2.2.rest := by
                split at hStop <;> exact hStop
              obtain ⟨hParts, hEnding, hBehind⟩ := readParts_alike h fuel hNext hEnd
              generalize readParts fuel (Script.nextToken (Script.nextToken p).next).next = read
                at hParts hEnding hBehind ⊢
              generalize readParts fuel (Script.nextToken (Script.nextToken p').next).next = read'
                at hParts hEnding hBehind ⊢
              obtain ⟨parts, ending, q⟩ := read
              obtain ⟨parts', ending', q'⟩ := read'
              cases ending <;> cases ending'
              · exact ⟨.junction all hParts, hBehind⟩
              · cases hEnding
              · cases hEnding
              · exact ⟨.cut _ _ (.junction all hParts), hBehind⟩
          · rename_i hWord _ _ _
            rw [if_neg hOpening] at hStop
            obtain ⟨hToken, -⟩ := Script.nextToken_shares h hNext
              (hStop.trans (readComparison_behind_word _ hWord))
            rw [if_neg hOpening, if_neg (hToken ▸ hOpening)]
            exact readComparison_alike h _ _ hShares hStop
      · exact readComparison_alike h _ _ hShares hStop

theorem readParts_alike (h : Script.Akin t t') (fuel : Nat) {p p' : Place}
    (hShares : p.Shares t t' p') (hStop : t <:+ (readParts fuel p).2.2.rest) :
    MatchesParts (readParts fuel p).1 (readParts fuel p').1 ∧
      (readParts fuel p').2.1.isSome = (readParts fuel p).2.1.isSome ∧
      (readParts fuel p).2.2.Shares t t' (readParts fuel p').2.2 := by
  cases fuel with
  | zero => exact ⟨.nil, rfl, bodyStart_shares h hShares hStop⟩
  | succ fuel =>
      have hItem : t <:+ (readItem fuel p).2.rest := by
        have hNext := (Script.nextToken_reaches (readItem fuel p).2).suffix
        refine hStop.trans ?_
        rw [readParts]
        dsimp only
        split
        · exact List.suffix_refl _
        · split
          · exact (readParts_reaches fuel _).suffix.trans hNext
          · exact hNext
          · exact (bodyStart_reaches _).suffix.trans hNext
      have hAlike := readItem_alike h fuel hShares hItem
      rw [readParts] at hStop
      rw [readParts, readParts]
      dsimp only at hStop ⊢
      rw [hAlike.condition.breaks]
      by_cases hBreaks : (readItem fuel p).1.breaks = true
      · rw [if_pos hBreaks, if_pos hBreaks]
        exact ⟨.cons hAlike.condition .nil, rfl, hAlike.stop⟩
      · rw [if_neg hBreaks] at hStop
        rw [if_neg hBreaks, if_neg hBreaks]
        have hToken : t <:+ (Script.nextToken (readItem fuel p).2).next.rest := by
          split at hStop
          · exact hStop.trans (readParts_reaches fuel _).suffix
          · exact hStop
          · exact hStop.trans (bodyStart_reaches _).suffix
        obtain ⟨hToken, hNext⟩ := Script.nextToken_shares h hAlike.stop hToken
        rw [hToken]
        split at hStop
        · obtain ⟨hParts, hEnding, hBehind⟩ := readParts_alike h fuel hNext hStop
          exact ⟨.cons hAlike.condition hParts, hEnding, hBehind⟩
        · exact ⟨.cons hAlike.condition .nil, rfl, hNext⟩
        · exact ⟨.cons hAlike.condition .nil, rfl, bodyStart_shares h hNext hStop⟩

end

/-- A text that is the same up to where reading a condition stops, and begins alike behind that, is read
as the same condition. -/
theorem read_alike (h : Script.Akin t t') (hShares : p.Shares t t' p')
    (hStop : t <:+ (read p).2.rest) : ReadAlike t t' (read p) (read p') := by
  have hFuel := (read_enough _ p rfl).1 (2 * p.rest.length + 2)
    (2 * (p.rest.length + p'.rest.length) + 2) (by omega) (by omega)
  have hFuel' := (read_enough _ p' rfl).1 (2 * p'.rest.length + 2)
    (2 * (p.rest.length + p'.rest.length) + 2) (by omega) (by omega)
  rw [read, hFuel] at hStop
  rw [read, read, hFuel, hFuel']
  exact readItem_alike h _ hShares hStop

end Condition

end EntityScript
