import EntityScript.Proofs.Spelling

/-! Words behind a command in two spellings of a script. A word that is read in both texts is the same
word, unless reading it passes over a word with two spellings. -/
namespace EntityScript.Script

variable {free : Bool} {text : Edition → List Char} {ps : List Part}

/-- None of the parts is a word with two spellings. -/
def Plain (ps : List Part) : Prop := ∀ text, .word text ∉ ps

instance instDecidablePlain : ∀ ps, Decidable (Plain ps)
  | [] => .isTrue fun _ => List.not_mem_nil
  | .same _ :: ps =>
    have := instDecidablePlain ps
    decidable_of_iff (Plain ps) ⟨fun h text hText => by simpa using h text (by simpa using hText),
      fun h text hText => h text (List.mem_cons_of_mem _ hText)⟩
  | .word text :: _ => .isFalse fun h => h text List.mem_cons_self

theorem Plain.spell (h : Plain ps) (e e' : Edition) : spell e ps = spell e' ps := by
  induction ps with
  | nil => rfl
  | cons p ps ih =>
      have hRest : Plain ps := fun text hText => h text (List.mem_cons_of_mem _ hText)
      cases p with
      | same c => rw [spell_same, spell_same, ih hRest]
      | word text => exact absurd List.mem_cons_self (h text)

/-- In both texts the scan stops at the same part, with a value that is the same if no word with two
spellings was passed. -/
def Takes (ps : List Part) (scan : Nat → List Char → Scan (List Char)) : Prop :=
  ∃ (passed rest : List Part) (value : Edition → List Char), ps = passed ++ rest ∧
    (Plain passed → value .respelled = value .original) ∧ ∀ e pos,
      (scan pos (spell e ps)).value = value e ∧ (scan pos (spell e ps)).stop = ⟨pos + Text.width (spell e passed), spell e rest⟩

namespace Takes

variable {scan next : Nat → List Char → Scan (List Char)} {passed : List Part}

/-- Going on behind parts that are passed over. -/
theorem after (h : Takes ps next) (hStep : ∀ e pos,
      (scan pos (spell e (passed ++ ps))).value =
          (next (pos + Text.width (spell e passed)) (spell e ps)).value ∧
        (scan pos (spell e (passed ++ ps))).stop =
          (next (pos + Text.width (spell e passed)) (spell e ps)).stop) :
    Takes (passed ++ ps) scan := by
  obtain ⟨read, rest, value, hParts, hValue, hRead⟩ := h
  refine ⟨passed ++ read, rest, value, by rw [hParts, List.append_assoc], fun hPlain => ?_,
    fun e pos => ?_⟩
  · exact hValue fun text hText => hPlain text (List.mem_append_right _ hText)
  · obtain ⟨hSame, hStop⟩ := hStep e pos
    obtain ⟨hWord, hNext⟩ := hRead e (pos + Text.width (spell e passed))
    rw [hSame, hStop, hWord, hNext, spell_append, Text.width_append, Nat.add_assoc]
    exact ⟨rfl, rfl⟩

end Takes

theorem bareWord_word {w : List Char} (h : ∀ c ∈ w, isNameChar c = true) (pos : Nat)
    (cs : List Char) : (bareWord pos (w ++ cs)).value = w ++ (bareWord (pos + Text.width w) cs).value ∧
      (bareWord pos (w ++ cs)).stop = (bareWord (pos + Text.width w) cs).stop := by
  induction w generalizing pos with
  | nil => exact ⟨rfl, rfl⟩
  | cons c w ih =>
      obtain ⟨hc, hw⟩ := List.forall_mem_cons.mp h
      obtain ⟨hGap, hQuote, _, hSlash, _⟩ := isNameChar_iff.mp hc
      obtain ⟨hValue, hStop⟩ := ih hw (pos + c.utf8Size)
      rw [List.cons_append, bareWord]
      simp [hGap, hQuote, hSlash, hValue, hStop, Nat.add_assoc]

/-- A bare word is what is passed, without the quotes in it. -/
theorem bareWord_stops (h : WellSpelled free ps) :
    ∃ passed rest, ps = passed ++ rest ∧ ∀ e pos,
      (bareWord pos (spell e ps)).value = (spell e passed).filter (· ≠ '"') ∧
        (bareWord pos (spell e ps)).stop = ⟨pos + Text.width (spell e passed), spell e rest⟩ := by
  induction ps generalizing free with
  | nil => exact ⟨[], [], rfl, fun _ _ => ⟨rfl, rfl⟩⟩
  | cons p ps ih =>
      obtain ⟨_, hTail⟩ := h.tail
      obtain ⟨passed, rest, hParts, hRead⟩ := ih hTail
      cases p with
      | same c =>
          have hSlash (e : Edition) := (WellSpelled.akin hTail .original e).head_slash
          by_cases hEnd : (isGap c || (c = '/' && (spell .original ps).head? = some '/')) = true
          · refine ⟨[], .same c :: ps, rfl, fun e pos => ?_⟩
            have hEnds : (isGap c || (decide (c = '/') && decide ((spell e ps).head? = some '/'))) =
                true := by simpa [hSlash e] using hEnd
            rw [spell_same, bareWord, if_pos hEnds]
            exact ⟨rfl, rfl⟩
          · refine ⟨.same c :: passed, rest, by rw [hParts, List.cons_append], fun e pos => ?_⟩
            have hGoes : ¬ (isGap c || (decide (c = '/') && decide ((spell e ps).head? = some '/'))) =
                true := by simpa [hSlash e] using hEnd
            obtain ⟨hValue, hStop⟩ := hRead e (pos + c.utf8Size)
            rw [spell_same, bareWord, if_neg hGoes]
            by_cases hQuote : c = '"'
            · subst hQuote
              simp [hValue, hStop, Nat.add_assoc]
            · simp [hQuote, hValue, hStop, Nat.add_assoc]
      | word text =>
          refine ⟨.word text :: passed, rest, by rw [hParts, List.cons_append], fun e pos => ?_⟩
          obtain ⟨hValue, hStop⟩ := hRead e (pos + Text.width (text e))
          obtain ⟨hWord, hBehind⟩ := bareWord_word (h.2.1.named e) pos (spell e ps)
          have hQuotes : (text e).filter (· ≠ '"') = text e :=
            List.filter_eq_self.mpr fun c hc => by simp [(isNameChar_iff.mp (h.2.1.named e c hc)).2.1]
          rw [spell_word, hWord, hBehind, hValue, hStop, spell_word, List.filter_append, hQuotes,
            Text.width_append, Nat.add_assoc]
          exact ⟨rfl, rfl⟩

theorem bareWord_takes (h : WellSpelled free ps) : Takes ps bareWord := by
  obtain ⟨passed, rest, hParts, hRead⟩ := bareWord_stops h
  exact ⟨passed, rest, _, hParts, fun hPlain => by rw [hPlain.spell .respelled .original], hRead⟩

theorem quotedBody_word {w : List Char} (h : ∀ c ∈ w, isNameChar c = true) (pos : Nat)
    (cs : List Char) : quotedBody pos (w ++ cs) =
      (w ++ (quotedBody (pos + Text.width w) cs).1, (quotedBody (pos + Text.width w) cs).2) := by
  induction w generalizing pos with
  | nil => rfl
  | cons c w ih =>
      obtain ⟨hc, hw⟩ := List.forall_mem_cons.mp h
      have hGoes : ¬ (c = '"' || c = '\n') = true := by
        simp [(isNameChar_iff.mp hc).2.1, isNameChar_ne_newline hc]
      rw [List.cons_append, quotedBody, if_neg hGoes, ih hw, Text.width_cons, Nat.add_assoc]
      rfl

/-- The inside of a quoted word is what is passed. -/
theorem quotedBody_stops (h : WellSpelled free ps) :
    ∃ passed rest, ps = passed ++ rest ∧ ∀ e pos,
      quotedBody pos (spell e ps) =
        (spell e passed, ⟨pos + Text.width (spell e passed), spell e rest⟩) := by
  induction ps generalizing free with
  | nil => exact ⟨[], [], rfl, fun _ _ => rfl⟩
  | cons p ps ih =>
      obtain ⟨_, hTail⟩ := h.tail
      obtain ⟨passed, rest, hParts, hRead⟩ := ih hTail
      cases p with
      | same c =>
          by_cases hEnd : (c = '"' || c = '\n') = true
          · refine ⟨[], .same c :: ps, rfl, fun e pos => ?_⟩
            rw [spell_same, quotedBody, if_pos hEnd]
            rfl
          · refine ⟨.same c :: passed, rest, by rw [hParts, List.cons_append], fun e pos => ?_⟩
            rw [spell_same, quotedBody, if_neg hEnd, hRead, spell_same, Text.width_cons, Nat.add_assoc]
      | word text =>
          refine ⟨.word text :: passed, rest, by rw [hParts, List.cons_append], fun e pos => ?_⟩
          rw [spell_word, quotedBody_word (h.2.1.named e), hRead, spell_word, Text.width_append,
            Nat.add_assoc]

theorem quotedWord_takes (h : WellSpelled free ps) : Takes ps quotedWord := by
  obtain ⟨passed, rest, hParts, hRead⟩ := quotedBody_stops h
  have hStays (hRest : ∀ e cs, spell e rest ≠ '"' :: cs) : Takes ps quotedWord := by
    refine ⟨passed, rest, fun e => spell e passed, hParts, fun hPlain => hPlain.spell _ _,
      fun e pos => ?_⟩
    rw [quotedWord, hRead]
    dsimp only
    split
    · exact absurd ‹_› (hRest e _)
    · exact ⟨rfl, rfl⟩
  cases rest with
  | nil => exact hStays fun _ cs => (List.cons_ne_nil '"' cs).symm
  | cons p rest =>
      cases p with
      | word text =>
          obtain ⟨_, hRest⟩ := (hParts ▸ h).suffix
          refine hStays fun e cs hText => ?_
          obtain ⟨c, w, hWord, hName⟩ := hRest.2.1.begins e
          rw [spell_word, hWord, List.cons_append] at hText
          exact (isNameChar_iff.mp hName).2.1 (List.cons.inj hText).1
      | same c =>
          by_cases hQuote : c = '"'
          · subst hQuote
            refine ⟨passed ++ [.same '"'], rest, fun e => spell e passed, by rw [hParts]; simp,
              fun hPlain => ?_, fun e pos => ?_⟩
            · exact Plain.spell (fun text hText => hPlain text (List.mem_append_left _ hText)) _ _
            · rw [quotedWord, hRead, spell_append, Text.width_append]
              exact ⟨rfl, rfl⟩
          · refine hStays fun e cs hText => ?_
            rw [spell_same] at hText
            exact hQuote (List.cons.inj hText).1

theorem nextWord_takes (h : WellSpelled free ps) : Takes ps nextWord := by
  obtain ⟨passed, rest, rfl, hGaps⟩ := skipGaps_stops true false h
  dsimp only at hGaps
  obtain ⟨_, hRest⟩ := h.suffix
  have hBare (hStart : ∀ e cs, spell e rest ≠ '"' :: cs) : Takes (passed ++ rest) nextWord := by
    refine (bareWord_takes hRest).after fun e pos => ?_
    rw [nextWord]
    dsimp only
    rw [hGaps]
    dsimp only
    split
    · exact absurd ‹_› (hStart e _)
    · exact ⟨rfl, rfl⟩
  cases rest with
  | nil => exact hBare fun _ cs => (List.cons_ne_nil '"' cs).symm
  | cons p rest =>
      cases p with
      | word text =>
          refine hBare fun e cs hText => ?_
          obtain ⟨c, w, hWord, hName⟩ := hRest.2.1.begins e
          rw [spell_word, hWord, List.cons_append] at hText
          exact (isNameChar_iff.mp hName).2.1 (List.cons.inj hText).1
      | same c =>
          by_cases hQuote : c = '"'
          · subst hQuote
            have hTail : WellSpelled _ rest := hRest
            rw [List.append_cons]
            refine (quotedWord_takes hTail).after fun e pos => ?_
            rw [nextWord, ← List.append_cons]
            dsimp only
            rw [hGaps, spell_append, Text.width_append, ← Nat.add_assoc]
            exact ⟨rfl, rfl⟩
          · refine hBare fun e cs hText => ?_
            rw [spell_same] at hText
            exact hQuote (List.cons.inj hText).1

/-- Between two offsets of the original text no word with two spellings begins. -/
def Clear (ps : List Part) (start stop : Nat) : Prop :=
  ∀ offset ∈ wordOffsets 0 ps, start ≤ offset → stop ≤ offset

instance (ps : List Part) (start stop : Nat) : Decidable (Clear ps start stop) :=
  inferInstanceAs (Decidable (∀ offset ∈ wordOffsets 0 ps, _))

/-- A word with two spellings begins inside the text. -/
theorem WellSpelled.offset_lt (h : WellSpelled free ps) {pos offset : Nat}
    (hOffset : offset ∈ wordOffsets pos ps) : offset < pos + Text.width (spell .original ps) := by
  induction ps generalizing free pos with
  | nil => cases hOffset
  | cons p ps ih =>
      obtain ⟨_, hTail⟩ := h.tail
      cases p with
      | same c =>
          have hInside := ih hTail hOffset
          rw [spell_same, Text.width_cons]
          omega
      | word text =>
          obtain ⟨c, w, hChars, _⟩ := h.2.1.begins .original
          have hSize := Char.utf8Size_pos c
          rw [spell_word, Text.width_append]
          rcases List.mem_cons.mp hOffset with rfl | hOffset
          · rw [hChars, Text.width_cons]
            omega
          · have hInside := ih hTail hOffset
            omega

/-- A clear stretch is clear in parts of it; what lies beyond the end of the text does not matter. -/
theorem Clear.mono (hWords : WellSpelled true ps) {start stop start' stop' : Nat}
    (h : Clear ps start stop) (hStart : min start (Text.width (spell .original ps)) ≤ start')
    (hStop : min stop' (Text.width (spell .original ps)) ≤ stop) : Clear ps start' stop' := by
  intro offset hOffset hBehind
  have hInside := hWords.offset_lt hOffset
  have hOver := h offset hOffset
  omega

theorem Clear.plain (hWords : WellSpelled true ps) {before read rest : List Part}
    (hParts : ps = before ++ (read ++ rest))
    (h : Clear ps (Text.width (spell .original before))
      (Text.width (spell .original (before ++ read)))) : Plain read := by
  intro text hText
  obtain ⟨passed, more, rfl⟩ := List.append_of_mem hText
  rw [List.append_assoc, List.cons_append, ← List.append_assoc] at hParts
  obtain ⟨_, hWord⟩ := (hParts ▸ hWords).suffix
  obtain ⟨c, w, hChars, _⟩ := hWord.2.1.begins .original
  have hSize := Char.utf8Size_pos c
  have hOffset := mem_wordOffsets 0 (before ++ passed) text (more ++ rest)
  rw [← hParts] at hOffset
  have hBehind := h _ hOffset (by
    rw [spell_append, Text.width_append]
    omega)
  simp only [spell_append, spell_word, hChars, Text.width_append, List.cons_append, Text.width_cons]
    at hBehind
  omega

/-- At parallel offsets the next word ends at parallel offsets, and it is the same word if no word with
two spellings begins on the way. -/
theorem Respelling.nextWord (hSpelling : Respelling ps) (name : String) {pos : Edition → Nat}
    (h : Parallel ps pos) : ∃ (value : Edition → List Char) (stop : Edition → Nat), Parallel ps stop ∧
      pos .original ≤ stop .original ∧
      (Clear ps (pos .original) (stop .original) → value .respelled = value .original) ∧ ∀ e,
        (Script.nextWord (pos e) ((edition name ps e).rest (pos e))).value = value e ∧
          (Script.nextWord (pos e) ((edition name ps e).rest (pos e))).stop.pos = stop e := by
  rcases h with ⟨before, rest, hParts, hPos⟩ | hBeyond
  · have hPlaces : Abreast ps fun e => ⟨pos e, spell e rest⟩ :=
      ⟨before, rest, hParts, fun e => by simp only [hPos]⟩
    have hRest (e : Edition) : (edition name ps e).rest (pos e) = spell e rest :=
      (hPlaces.holds name e).rest_eq
    obtain ⟨_, hTail⟩ := (hParts ▸ hSpelling.words).suffix
    obtain ⟨read, behind, value, rfl, hValue, hRead⟩ := nextWord_takes hTail
    refine ⟨value, fun e => Text.width (spell e (before ++ read)),
      .inl ⟨before ++ read, behind, by rw [hParts, List.append_assoc], fun _ => rfl⟩, ?_, ?_, fun e => ?_⟩
    · simp only [hPos, spell_append, Text.width_append]
      exact Nat.le_add_right _ _
    · exact fun hClear => hValue (Clear.plain hSpelling.words hParts (hPos .original ▸ hClear))
    · rw [hRest]
      obtain ⟨hWord, hStop⟩ := hRead e (pos e)
      refine ⟨hWord, ?_⟩
      rw [hStop]
      simp only [hPos, spell_append, Text.width_append]
  · refine ⟨fun _ => [], pos, .inr hBeyond, Nat.le_refl _, fun _ => rfl, fun e => ?_⟩
    have hNone : (edition name ps e).rest (pos e) = [] := by
      rw [Script.rest, from?_beyond (hBeyond e)]
      rfl
    rw [hNone]
    exact ⟨rfl, rfl⟩

/-- Behind gaps, parallel offsets are followed by the same parts. -/
theorem Respelling.skipGaps (hSpelling : Respelling ps) (name : String) (lines : Bool)
    {pos : Edition → Nat} (h : Parallel ps pos) : ∃ (stop : Edition → Nat) (rest : List Part) (free : Bool),
      Parallel ps stop ∧ WellSpelled free rest ∧ pos .original ≤ stop .original ∧ ∀ e,
        (Script.skipGaps lines false (pos e) ((edition name ps e).rest (pos e))).1.pos = stop e ∧
          (edition name ps e).rest (stop e) = spell e rest := by
  rcases h with ⟨before, rest, hParts, hPos⟩ | hBeyond
  · have hPlaces : Abreast ps fun e => ⟨pos e, spell e rest⟩ :=
      ⟨before, rest, hParts, fun e => by simp only [hPos]⟩
    have hStart := hPlaces.skipGaps hSpelling.words lines
    have hHolds (e : Edition) := hStart.holds name e
    have hStop := hStart.parallel
    obtain ⟨passed, behind, hBehind, hPlace⟩ := hStart
    obtain ⟨_, hWords⟩ := (hBehind ▸ hSpelling.words).suffix
    refine ⟨_, behind, _, hStop, hWords, ?_, fun e => ⟨?_, ?_⟩⟩
    · exact (skipGaps_reaches _ _ _ _).le
    · rw [(hPlaces.holds name e).rest_eq]
    · rw [(hHolds e).rest_eq]
      exact congrArg Place.rest (hPlace e)
  · have hNone (e : Edition) : (edition name ps e).rest (pos e) = [] := by
      rw [Script.rest, from?_beyond (hBeyond e)]
      rfl
    refine ⟨pos, [], true, .inr hBeyond, True.intro, Nat.le_refl _, fun e => ⟨?_, hNone e⟩⟩
    rw [hNone]
    rfl

theorem Respelling.lineEnd (hSpelling : Respelling ps) (name : String) {pos : Edition → Nat}
    (h : Parallel ps pos) :
    Parallel ps fun e => (Script.lineEnd (pos e) ((edition name ps e).rest (pos e))).pos := by
  rcases h with ⟨before, rest, hParts, hPos⟩ | hBeyond
  · have hPlaces : Abreast ps fun e => ⟨pos e, spell e rest⟩ :=
      ⟨before, rest, hParts, fun e => by simp only [hPos]⟩
    simpa only [(hPlaces.holds name _).rest_eq] using (hPlaces.lineEnd hSpelling.words).parallel
  · have hNone (e : Edition) : (edition name ps e).rest (pos e) = [] := by
      rw [Script.rest, from?_beyond (hBeyond e)]
      rfl
    simp only [hNone]
    exact .inr hBeyond

/-- Something is left on the line in both texts or in none. -/
theorem WellSpelled.more (h : WellSpelled free ps) (e : Edition) :
    (spell e ps).head?.any (· ≠ '\n') = (spell .original ps).head?.any (· ≠ '\n') := by
  cases ps with
  | nil => rfl
  | cons p ps =>
      cases p with
      | same c => rfl
      | word text =>
          have hMore (e : Edition) : (spell e (.word text :: ps)).head?.any (· ≠ '\n') = true := by
            obtain ⟨c, cs, hText, hName⟩ := h.2.1.begins e
            simp [hText, isNameChar_ne_newline hName]
          rw [hMore, hMore]

/-- Flags begin a text: letters behind a minus. -/
def flagged : List Char → Bool
  | '-' :: c :: _ => c.isAlpha
  | _ => false

/-- No command is named by a minus and what may be a flag. -/
theorem no_flag_command : ∀ name ∈ Command.builtins.map Command.name,
    (Command.normalize name).toList.head? = some '-' →
      (Command.normalize name).toList[1]? = some '-' := by
  decide +kernel

theorem lowerChar_alpha {c : Char} (h : c.isAlpha = true) :
    c ≠ '_' ∧ (Text.lowerChar c).head? ≠ some '-' ∧ Text.lowerChar c ≠ [] := by
  have hAll : ∀ n < 128, (Char.ofNat n).isAlpha = true → Char.ofNat n ≠ '_' ∧
      (Text.lowerChar (Char.ofNat n)).head? ≠ some '-' ∧ Text.lowerChar (Char.ofNat n) ≠ [] := by
    decide +kernel
  have hSmall : c.toNat < 128 := by
    change (decide (c.val ≥ 'A'.val ∧ c.val ≤ 'Z'.val) ||
      (decide (c.val ≥ 'a'.val) && decide (c.val ≤ 'z'.val))) = true at h
    simp only [Bool.or_eq_true, Bool.and_eq_true, decide_eq_true_eq] at h
    rcases h with ⟨-, hLe⟩ | ⟨-, hLe⟩
    · exact Nat.lt_of_le_of_lt hLe (by decide)
    · exact Nat.lt_of_le_of_lt hLe (by decide)
  have hChar := hAll c.toNat hSmall
  rw [Char.ofNat_toNat] at hChar
  exact hChar h

/-- A word with two spellings is no flag. -/
theorem Synonyms.not_flagged (h : Synonyms text) (e : Edition) (t : List Char) :
    flagged (text e ++ t) = false := by
  obtain ⟨c, hCommand, hNormal⟩ := h.command
  have hMinus := no_flag_command c.name (List.mem_map_of_mem hCommand)
  rw [← hNormal e, Command.normalize_ofList] at hMinus
  have hLower : Text.lowerChar '-' = ['-'] := by decide +kernel
  cases hText : text e with
  | nil => exact absurd hText (h.some e)
  | cons a w =>
      rw [hText] at hMinus
      by_cases ha : a = '-'
      · subst ha
        cases w with
        | nil => exact absurd (hMinus (by decide +kernel)) (by decide +kernel)
        | cons b w =>
            change b.isAlpha = false
            refine Bool.eq_false_iff.mpr fun hAlpha => ?_
            obtain ⟨hKept, hOther, hSome⟩ := lowerChar_alpha hAlpha
            obtain ⟨d, ds, hd⟩ := List.exists_cons_of_ne_nil hSome
            rw [hd] at hOther
            simp [hLower, hKept, hd] at hMinus
            exact hOther (by rw [hMinus]; rfl)
      · simp [flagged, ha]

/-- Flags follow in both texts or in none. -/
theorem WellSpelled.flagged (h : WellSpelled free ps) (e : Edition) :
    Script.flagged (spell e ps) = Script.flagged (spell .original ps) := by
  cases ps with
  | nil => rfl
  | cons p ps =>
      cases p with
      | word text =>
          rw [spell_word, spell_word, h.2.1.not_flagged, h.2.1.not_flagged]
      | same c =>
          by_cases hMinus : c = '-'
          · subst hMinus
            cases ps with
            | nil => rfl
            | cons q ps =>
                cases q with
                | same d => rfl
                | word text =>
                    obtain ⟨hFree, _⟩ : (isGap '-' || decide ('-' = '\x7d')) = true ∧ _ := h
                    exact absurd hFree (by decide)
          · simp [Script.flagged, hMinus]

end EntityScript.Script
