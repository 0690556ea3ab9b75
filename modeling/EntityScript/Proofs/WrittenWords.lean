import EntityScript.Proofs.AssignedText
import EntityScript.Proofs.Confinement

/-! Quoted words that are read back as they were written. Gaps and remarks stand between the words, texts
and references in them. Every reference gives the text of what it names when its word is read, the first
one first, and nothing of that text is read again. -/
namespace EntityScript

namespace Script

/-- Gaps, and remarks with the ends of their lines. -/
inductive Separates : List Char → Prop where
  | none : Separates []
  | gap {c : Char} {g : List Char} (hGap : isGap c = true) (h : Separates g) : Separates (c :: g)
  | remark {line g : List Char} (hLine : '\n' ∉ line) (h : Separates g) :
      Separates ('/' :: '/' :: (line ++ '\n' :: g))

/-- The offset of the first newline in a text that begins at `pos`. -/
def newline? (pos : Nat) (cs : List Char) : Option Nat :=
  if '\n' ∈ cs then some (pos + Text.width (cs.takeWhile (· ≠ '\n'))) else none

variable {c : Char} {g line cs : List Char}

theorem newline?_cons (h : c ≠ '\n') (pos : Nat) (cs : List Char) :
    newline? pos (c :: cs) = newline? (pos + c.utf8Size) cs := by
  have hThere : '\n' ∈ c :: cs ↔ '\n' ∈ cs := by simp [Ne.symm h]
  simp only [newline?, hThere]
  rw [List.takeWhile_cons_of_pos (by simpa using h), Text.width_cons, Nat.add_assoc]

theorem newline?_line (h : '\n' ∉ line) (pos : Nat) (cs : List Char) :
    newline? pos (line ++ '\n' :: cs) = some (pos + Text.width line) := by
  induction line generalizing pos with
  | nil => simp [newline?]
  | cons c line ih =>
      obtain ⟨hNe, hLine⟩ := not_or.mp (mt List.mem_cons.mpr h)
      rw [List.cons_append, newline?_cons (Ne.symm hNe), ih hLine, Text.width_cons, Nat.add_assoc]

/-- A remark is passed over, and so is the end of its line. -/
theorem skipGaps_line (h : '\n' ∉ line) (pos : Nat) (cs : List Char) :
    skipGaps true true pos (line ++ '\n' :: cs) =
      ((skipGaps true false (pos + Text.width line + 1) cs).1, some (pos + Text.width line)) := by
  induction line generalizing pos with
  | nil => rfl
  | cons c line ih =>
      obtain ⟨hNe, hLine⟩ := not_or.mp (mt List.mem_cons.mpr h)
      rw [List.cons_append, skipGaps, if_neg (Ne.symm hNe), if_pos (by simp), ih hLine, Text.width_cons,
        Nat.add_assoc pos]

/-- What separates two words is passed over, up to a character that no gap or remark begins with. -/
theorem Separates.skipGaps (h : Separates g) (hGap : isGap c = false) (hSlash : c ≠ '/') (pos : Nat)
    (cs : List Char) :
    skipGaps true false pos (g ++ c :: cs) = (⟨pos + Text.width g, c :: cs⟩, newline? pos g) := by
  induction h generalizing pos with
  | none => exact skipGaps_stops_at (g := []) (List.forall_mem_nil _) hGap hSlash true pos
  | @gap d g hBlank _ ih =>
      rw [List.cons_append, Script.skipGaps]
      by_cases hNewline : d = '\n'
      · subst hNewline
        rw [if_pos rfl, if_pos rfl, ih, Text.width_cons, ← Nat.add_assoc]
        simp [newline?]
        rfl
      · rw [if_neg hNewline, hBlank, Bool.false_or, if_pos rfl, ih, newline?_cons hNewline,
          Text.width_cons, Nat.add_assoc]
  | @remark line g hLine _ ih =>
      have hSlash : '/'.utf8Size = 1 := by decide
      have hNewline : '\n'.utf8Size = 1 := by decide
      have hOpening : '\n' ∉ '/' :: '/' :: line := by simp [hLine]
      have hRemark := newline?_line hOpening pos g
      have hSkip : Script.skipGaps true false pos ('/' :: '/' :: (line ++ '\n' :: g) ++ c :: cs) =
          Script.skipGaps true true (pos + 1 + 1) (line ++ '\n' :: (g ++ c :: cs)) := by
        simp [Script.skipGaps, isGap, hSlash]
      rw [hSkip, skipGaps_line hLine, ih]
      simp only [List.cons_append] at hRemark
      rw [hRemark]
      simp only [Text.width_cons, Text.width_append, hSlash, hNewline]
      congr 2 <;> omega

end Script

/-- The text of a quoted word: texts with references between them. -/
structure Quotation where
  first : List Char
  /-- The references, each with the text behind it. -/
  parts : List (List Char × List Char)
  first_verbatim : Script.Verbatim first
  parts_verbatim : ∀ part ∈ parts, Script.Verbatim part.1 ∧ Script.Verbatim part.2
  /-- No reference has a format specification. -/
  unformatted : ∀ part ∈ parts, part.1.head? ≠ some '%'

namespace Quotation

/-- References, each between two tildes, with the texts behind them. -/
def written (parts : List (List Char × List Char)) : List Char :=
  parts.flatMap fun part => '~' :: (part.1 ++ '~' :: part.2)

def text (w : Quotation) : List Char := w.first ++ written w.parts

end Quotation

/-- A quoted word with what separates it from the one before. -/
structure QuotedWord where
  gap : List Char
  word : Quotation
  separates : Script.Separates gap

namespace QuotedWord

def text (w : QuotedWord) : List Char := w.gap ++ '"' :: (w.word.text ++ ['"'])

/-- The offset behind the closing quote of a word that is written at `pos`. -/
def stop (w : QuotedWord) (pos : Nat) : Nat := pos + Text.width w.text

/-- The warning about a newline before the word. -/
def notes (w : QuotedWord) (pos : Nat) : List Note :=
  (Script.newline? pos w.gap).toList.map (⟨·, "unexpected newline"⟩)

end QuotedWord

namespace Act

open Script (Verbatim Separates)

/-- The texts of the references in order, each with the text behind it. -/
def filled : List (List Char × List Char) → Act String
  | [] => return ""
  | (name, text) :: parts => do
    let value ← readVar (String.ofList name)
    let behind ← filled parts
    return value.asText ++ String.ofList text ++ behind

/-- What reading the words gives that are written from `pos` on. -/
def readBack (pos : Nat) : List QuotedWord → Act (List String)
  | [] => return []
  | w :: ws => do
    emit (w.notes pos)
    modify fun p => { p with pos := w.stop pos }
    let behind ← filled w.word.parts
    let texts ← readBack (w.stop pos) ws
    return (String.ofList w.word.first ++ behind) :: texts

variable {inv : Invocation} {p q : Progress}

/-- The parts of a word one after the other. -/
def joined (parts : List Piece) : Act String := return String.join (← parts.mapM pieceText)

theorem joined_cons (part : Piece) (parts : List Piece) :
    joined (part :: parts) = do
      let text ← pieceText part
      let behind ← joined parts
      return text ++ behind := by
  simp [joined, List.mapM_cons]

theorem referenceText_unformatted {name : List Char} (h : name.head? ≠ some '%') :
    referenceText name = do return (← readVar (String.ofList name)).asText := by
  have hTarget : Piece.target name = (none, String.ofList name) := by
    unfold Piece.target
    split
    · exact absurd rfl h
    · rfl
  rw [referenceText, hTarget]

/-- The parts of a text with references. -/
theorem split_written (first : List Char) {parts : List (List Char × List Char)}
    (h : ∀ part ∈ parts, Verbatim part.1 ∧ Verbatim part.2) :
    Piece.split false first (Quotation.written parts) =
      .literal first :: parts.flatMap fun part => [.reference part.1, .literal part.2] := by
  induction parts generalizing first with
  | nil => rfl
  | cons part parts ih =>
      obtain ⟨⟨hName, hText⟩, hRest⟩ := List.forall_mem_cons.mp h
      have hTilde {cs : List Char} (hcs : Verbatim cs) : '~' ∉ cs := fun hMem => (hcs _ hMem).2 rfl
      have hWritten : Quotation.written (part :: parts) =
          '~' :: (part.1 ++ '~' :: (part.2 ++ Quotation.written parts)) := by
        simp [Quotation.written]
      rw [hWritten, Piece.split, if_pos rfl, if_neg (by simp), Piece.split_plain (hTilde hName),
        Bool.not_false, Piece.split, if_pos rfl, if_pos rfl, Bool.not_true,
        Piece.split_plain (hTilde hText), List.nil_append, List.nil_append, ih _ hRest]
      rfl

theorem joined_parts {parts : List (List Char × List Char)}
    (h : ∀ part ∈ parts, part.1.head? ≠ some '%') :
    joined (parts.flatMap fun part => [.reference part.1, .literal part.2]) = filled parts := by
  induction parts with
  | nil => rfl
  | cons part parts ih =>
      obtain ⟨hName, hRest⟩ := List.forall_mem_cons.mp h
      have hReference : pieceText (.reference part.1) = do
          return (← readVar (String.ofList part.1)).asText := referenceText_unformatted hName
      rw [List.flatMap_cons, List.cons_append, List.cons_append, List.nil_append, joined_cons,
        joined_cons, ih hRest, filled, hReference, pieceText]
      simp [String.append_assoc]

/-- Replacing the references of a word. -/
theorem expand_quotation (w : Quotation) :
    expand (String.ofList w.text) = do
      let behind ← filled w.parts
      return String.ofList w.first ++ behind := by
  have hPlain : '~' ∉ w.first := fun hMem => (w.first_verbatim _ hMem).2 rfl
  have hParts : Piece.parts (String.ofList w.text) =
      .literal w.first :: w.parts.flatMap fun part => [.reference part.1, .literal part.2] := by
    rw [Piece.parts, String.toList_ofList, Quotation.text, Piece.split_plain hPlain, List.nil_append,
      split_written _ w.parts_verbatim]
  change joined (Piece.parts (String.ofList w.text)) = _
  rw [hParts, joined_cons, joined_parts w.unformatted]
  rfl

/-- The text of a quoted word has no quote and no newline in it. -/
theorem quotable_text (w : Quotation) : ∀ c ∈ w.text, Script.isQuotable c = true := by
  intro c hc
  rcases List.mem_append.mp hc with hc | hc
  · exact (w.first_verbatim c hc).1
  obtain ⟨part, hPart, hc⟩ := List.mem_flatMap.mp hc
  obtain ⟨hName, hText⟩ := w.parts_verbatim part hPart
  rcases List.mem_cons.mp hc with rfl | hc
  · rfl
  rcases List.mem_append.mp hc with hc | hc
  · exact (hName c hc).1
  rcases List.mem_cons.mp hc with rfl | hc
  · rfl
  · exact (hText c hc).1

theorem nextWord_written (w : QuotedWord) (pos : Nat) (after : List Char) :
    Script.nextWord pos (w.text ++ after) = ⟨w.word.text, ⟨w.stop pos, after⟩, w.notes pos⟩ := by
  have hQuote : '"'.utf8Size = 1 := by decide
  have hText : w.text ++ after = w.gap ++ '"' :: (w.word.text ++ '"' :: after) := by
    simp [QuotedWord.text]
  have hStop : w.stop pos = pos + Text.width w.gap + 1 + Text.width w.word.text + 1 := by
    simp only [QuotedWord.stop, QuotedWord.text, Text.width_append, Text.width_cons, Text.width_nil,
      hQuote]
    omega
  have hWord := Script.quotedWord_quotable (quotable_text w.word) (pos + Text.width w.gap + 1) after
  rw [← hStop] at hWord
  rw [hText, Script.nextWord, w.separates.skipGaps (by decide) (by decide)]
  change ({ Script.quotedWord (pos + Text.width w.gap + 1) (w.word.text ++ '"' :: after) with
    notes := w.notes pos ++
      (Script.quotedWord (pos + Text.width w.gap + 1) (w.word.text ++ '"' :: after)).notes } :
      Scan (List Char)) = _
  rw [hWord, List.append_nil]

variable {w : QuotedWord} {ws : List QuotedWord} {after : List Char}

/-- Reading a quoted word: the warning about a newline, the place behind the word, then its references. -/
theorem word_written (hText : inv.script.rest p.pos = w.text ++ after) :
    word inv p = (do
      emit (w.notes p.pos)
      modify fun q => { q with pos := w.stop p.pos }
      let behind ← filled w.word.parts
      return String.ofList w.word.first ++ behind : Act String) inv p := by
  have hRaw : rawWord inv p = (do
      emit (w.notes p.pos)
      modify fun q => { q with pos := w.stop p.pos }
      return String.ofList w.word.text : Act String) inv p := by
    rw [rawWord, get_bind, rest_bind, hText, nextWord_written]
    simp only [take, bind_assoc, pure_bind]
  rw [word, bind_apply, hRaw, ← bind_apply]
  simp only [bind_assoc, pure_bind, expand_quotation]

/-- References move neither the place nor the return points. -/
theorem filled_stays (hText : inv.script.rest p.pos = w.text ++ after) {r : Progress} {text : String}
    (hRun : filled w.word.parts inv q = .ok text r) : r.pos = q.pos ∧ r.calls = q.calls := by
  have hWrites : inv.script.Writes (String.ofList w.word.text) := by
    have hArgument := Script.Writes.argument p.pos (inv.script.rest_suffix p.pos)
    rwa [hText, nextWord_written] at hArgument
  have hExpand : expand (String.ofList w.word.text) inv q =
      .ok (String.ofList w.word.first ++ text) r := by
    rw [expand_quotation, bind_of_ok hRun]
    rfl
  exact Steady.stays (fun _ => Steady.expand hWrites) hExpand

/-- What is left behind the warning about a newline, with the place behind the word. -/
theorem exists_behind (w : QuotedWord) (pos : Nat) (inv : Invocation) (p : Progress) :
    ∃ behind : Progress, behind.pos = w.stop pos ∧ behind.calls = p.calls ∧
      ∀ {β : Type} (act : Act β), (do
        emit (w.notes pos)
        modify fun q => { q with pos := w.stop pos }
        act : Act β) inv p = act inv behind := by
  obtain ⟨log, hEmit, -⟩ := emit_ok (w.notes pos) inv p
  refine ⟨p.read (p.session.log ++ log) (w.stop pos), rfl, rfl, fun act => ?_⟩
  rw [bind_of_ok hEmit]
  rfl

/-- Reading words one after the other gives each of them back. -/
theorem words_written {ws : List QuotedWord}
    (hText : inv.script.Holds ⟨p.pos, ws.flatMap QuotedWord.text ++ after⟩) :
    (ws.mapM fun _ => word) inv p = readBack p.pos ws inv p ∧
    ∀ texts q, readBack p.pos ws inv p = .ok texts q →
      q.pos = p.pos + Text.width (ws.flatMap QuotedWord.text) ∧ q.calls = p.calls := by
  induction ws generalizing p with
  | nil =>
      refine ⟨rfl, fun texts q hRun => ?_⟩
      cases hRun
      exact ⟨rfl, rfl⟩
  | cons w ws ih =>
      rw [List.flatMap_cons, List.append_assoc] at hText
      obtain ⟨behind, hPos, hCalls, hBehind⟩ := exists_behind w p.pos inv p
      rw [List.mapM_cons, bind_apply, word_written hText.rest_eq, readBack, hBehind, hBehind]
      cases hFilled : filled w.word.parts inv behind with
      | error halt q =>
          rw [bind_of_error hFilled, bind_of_error hFilled]
          exact ⟨rfl, nofun⟩
      | ok text q =>
          obtain ⟨hStays, hStays'⟩ := filled_stays hText.rest_eq hFilled
          have hPlace : q.pos = w.stop p.pos := hStays.trans hPos
          have hThere : inv.script.Holds ⟨q.pos, ws.flatMap QuotedWord.text ++ after⟩ :=
            hPlace ▸ hText.behind
          obtain ⟨hSame, hEnd⟩ := ih hThere
          rw [hPlace] at hSame hEnd
          rw [bind_of_ok hFilled, bind_of_ok hFilled, bind_apply]
          change ((ws.mapM fun _ => word) >>= fun texts =>
            pure ((String.ofList w.word.first ++ text) :: texts)) inv q = _ ∧ _
          rw [bind_apply, hSame]
          cases hMore : readBack (w.stop p.pos) ws inv q with
          | error halt r => exact ⟨rfl, nofun⟩
          | ok texts r =>
              obtain ⟨hLast, hCalls'⟩ := hEnd texts r hMore
              refine ⟨rfl, ?_⟩
              rintro _ _ ⟨⟩
              rw [List.flatMap_cons, Text.width_append, ← Nat.add_assoc]
              exact ⟨hLast, hCalls'.trans (hStays'.trans hCalls)⟩

/-- References halt only where one of the variables that they name does. -/
theorem filled_error {parts : List (List Char × List Char)} {halt : Halt} {r : Progress}
    (h : filled parts inv q = .error halt r) :
    ∃ part ∈ parts, ∃ here, readVar (String.ofList part.1) inv here = .error halt r := by
  induction parts generalizing q with
  | nil => cases h
  | cons part parts ih =>
      rw [filled, bind_apply] at h
      cases hRead : readVar (String.ofList part.1) inv q with
      | error halt' r' =>
          rw [hRead] at h
          cases h
          exact ⟨part, List.mem_cons_self, q, hRead⟩
      | ok value here =>
          rw [hRead] at h
          dsimp only at h
          rw [bind_apply] at h
          cases hBehind : filled parts inv here with
          | error halt' r' =>
              rw [hBehind] at h
              cases h
              obtain ⟨part, hPart, hHalts⟩ := ih hBehind
              exact ⟨part, List.mem_cons_of_mem _ hPart, hHalts⟩
          | ok text r' =>
              rw [hBehind] at h
              cases h

theorem readBack_error {ws : List QuotedWord} {pos : Nat} {halt : Halt} {r : Progress}
    (h : readBack pos ws inv q = .error halt r) :
    ∃ w ∈ ws, ∃ part ∈ w.word.parts, ∃ here,
      readVar (String.ofList part.1) inv here = .error halt r := by
  induction ws generalizing pos q with
  | nil => cases h
  | cons w ws ih =>
      obtain ⟨behind, -, -, hBehind⟩ := exists_behind w pos inv q
      rw [readBack, hBehind, bind_apply] at h
      cases hFilled : filled w.word.parts inv behind with
      | error halt' r' =>
          rw [hFilled] at h
          cases h
          exact ⟨w, List.mem_cons_self, filled_error hFilled⟩
      | ok text here =>
          rw [hFilled] at h
          dsimp only at h
          rw [bind_apply] at h
          cases hMore : readBack (w.stop pos) ws inv here with
          | error halt' r' =>
              rw [hMore] at h
              cases h
              obtain ⟨w, hMem, hHalts⟩ := ih hMore
              exact ⟨w, List.mem_cons_of_mem _ hMem, hHalts⟩
          | ok texts r' =>
              rw [hMore] at h
              cases h

/-- Quoted words come back as they were written. Reading them one after the other gives for each word its
texts with the values of its references between them, each as it is when its turn comes, and the place
behind a word is that behind its closing quote. It halts only where reading a variable does. -/
theorem quoted_words_read_back (ws : List QuotedWord) (after : List Char) (inv : Invocation)
    (p : Progress) (hText : inv.script.Holds ⟨p.pos, ws.flatMap QuotedWord.text ++ after⟩) :
    (ws.mapM fun _ => word) inv p = readBack p.pos ws inv p ∧
    (∀ texts q, (ws.mapM fun _ => word) inv p = .ok texts q →
      q.pos = p.pos + Text.width (ws.flatMap QuotedWord.text) ∧ q.calls = p.calls) ∧
    ∀ halt q, (ws.mapM fun _ => word) inv p = .error halt q →
      ∃ w ∈ ws, ∃ part ∈ w.word.parts, ∃ here,
        readVar (String.ofList part.1) inv here = .error halt q := by
  obtain ⟨hSame, hEnd⟩ := words_written hText
  rw [hSame]
  exact ⟨rfl, hEnd, fun halt q hHalt => readBack_error hHalt⟩

/-- Two words with a remark and a newline between them, and two slashes inside the second. -/
def greetingWords : List QuotedWord := [
  { gap := [], separates := .none
    word := {
      first := "n is ".toList, parts := [("#n".toList, [])]
      first_verbatim := by decide, parts_verbatim := by decide, unformatted := by decide } },
  { gap := " // ~ \"\n(".toList
    separates := .gap (by decide) <|
      .remark (show '\n' ∉ " ~ \"".toList by decide) <| .gap (by decide) .none
    word := {
      first := "// ".toList, parts := [("$t".toList, ".".toList)]
      first_verbatim := by decide, parts_verbatim := by decide, unformatted := by decide } }]

/-- The variables were never written; the slashes inside the word belong to it. -/
theorem quoted_words_read_back_greeting :
    ∃ q, (greetingWords.mapM fun _ => word)
        (Command.argumentsOf "\"n is ~#n~\" // ~ \"\n(\"// ~$t~.\")") Command.firstArgument =
      .ok ["n is 0", "// ."] q ∧ q.pos = 30 := by
  obtain ⟨hSame, hEnd, -⟩ := quoted_words_read_back greetingWords [')']
    (Command.argumentsOf "\"n is ~#n~\" // ~ \"\n(\"// ~$t~.\")") Command.firstArgument rfl
  obtain ⟨q, hRead⟩ : ∃ q, readBack 0 greetingWords
      (Command.argumentsOf "\"n is ~#n~\" // ~ \"\n(\"// ~$t~.\")") Command.firstArgument =
      .ok ["n is 0", "// ."] q := ⟨_, rfl⟩
  have hRun := hSame.trans hRead
  exact ⟨q, hRun, (hEnd _ _ hRun).1⟩

end Act

end EntityScript
