import EntityScript.Proofs.Lookahead

/-! Two spellings of one script. They differ in underscores and capital letters of some of their words.
What reads the text to tell where it goes on, finding a command word and passing over gaps, lines, blocks,
conditions and whole statements, takes the same way through both. -/
namespace EntityScript

/-- One of the two spellings of a script. -/
inductive Edition where
  | original
  | respelled
  deriving DecidableEq, Repr

/-- One of two values, told by the spelling. -/
def Edition.pick {α : Type} (a b : α) : Edition → α
  | original => a
  | respelled => b

theorem Edition.pick_eta {α : Type} (f : Edition → α) :
    Edition.pick (f .original) (f .respelled) = f := by
  funext e
  cases e <;> rfl

instance Edition.instDecidableForall {p : Edition → Prop} [∀ e, Decidable (p e)] :
    Decidable (∀ e, p e) :=
  decidable_of_iff (p .original ∧ p .respelled)
    ⟨fun h e => match e with | .original => h.1 | .respelled => h.2, fun h => ⟨h _, h _⟩⟩

/-- A part of a script: a character that both spellings have, or a word with the text that it has in
each of them. -/
inductive Part where
  | same (c : Char)
  | word (text : Edition → List Char)

/-- The text of a part in one of the spellings. -/
def Part.text (e : Edition) : Part → List Char
  | same c => [c]
  | word text => text e

namespace Script

/-- The text that parts come to in one of the spellings. -/
def spell (e : Edition) (ps : List Part) : List Char := ps.flatMap (Part.text e)

@[simp] theorem spell_nil (e : Edition) : spell e [] = [] := rfl

@[simp] theorem spell_same (e : Edition) (c : Char) (ps : List Part) :
    spell e (.same c :: ps) = c :: spell e ps := rfl

@[simp] theorem spell_word (e : Edition) (text : Edition → List Char) (ps : List Part) :
    spell e (.word text :: ps) = text e ++ spell e ps := rfl

@[simp] theorem spell_append (e : Edition) (ps qs : List Part) :
    spell e (ps ++ qs) = spell e ps ++ spell e qs := List.flatMap_append

/-- A word is over: a gap, a remark or the end of the text follows. -/
def endsWord : List Char → Bool
  | [] => true
  | c :: cs => isGap c || (c = '/' && cs.head? = some '/')

/-- The words that passing over statements looks for. -/
def keywords : List (List Char) := ["if".toList, "else".toList]

/-- The texts of one word: both denote the same command, and where one is a keyword, so is the other. -/
structure Synonyms (text : Edition → List Char) : Prop where
  named : ∀ e, ∀ c ∈ text e, isNameChar c = true
  command : ∃ c ∈ Command.builtins, ∀ e,
    Command.normalize (String.ofList (text e)) = Command.normalize c.name
  keyword : ∀ k ∈ keywords, text .respelled = k ↔ text .original = k

instance (text : Edition → List Char) : Decidable (Synonyms text) :=
  have (e : Edition) : Decidable (∀ c ∈ text e, isNameChar c = true) := List.decidableBAll _ _
  decidable_of_iff ((∀ e, ∀ c ∈ text e, isNameChar c = true) ∧
      (∃ c ∈ Command.builtins, ∀ e,
        Command.normalize (String.ofList (text e)) = Command.normalize c.name) ∧
      ∀ k ∈ keywords, text .respelled = k ↔ text .original = k)
    ⟨fun h => ⟨h.1, h.2.1, h.2.2⟩, fun h => ⟨h.named, h.command, h.keyword⟩⟩

/-- What is told by the word as it is written, and begins no command. -/
def foreign : List (List Char) :=
  [">".toList, ">>".toList, "\x7b".toList, "\x7d".toList, "on".toList, "timer".toList]

theorem no_foreign_command : ∀ k ∈ foreign, ∀ name ∈ Command.builtins.map Command.name,
    ¬ (Command.normalize (String.ofList k)).toList <+: (Command.normalize name).toList := by
  decide +kernel

/-- Every word with two spellings is a word of its own, with a gap or the end of a block before it.
`free` tells whether a word may begin here. -/
def WellSpelled (free : Bool) : List Part → Prop
  | [] => True
  | .same c :: ps => WellSpelled (isGap c || c = '\x7d') ps
  | .word text :: ps =>
    free = true ∧ Synonyms text ∧ endsWord (spell .original ps) = true ∧ WellSpelled false ps

instance instDecidableWellSpelled (free : Bool) : ∀ ps, Decidable (WellSpelled free ps)
  | [] => inferInstanceAs (Decidable True)
  | .same c :: ps => instDecidableWellSpelled (isGap c || c = '\x7d') ps
  | .word text :: ps =>
    have := instDecidableWellSpelled false ps
    inferInstanceAs (Decidable (free = true ∧ Synonyms text ∧ endsWord (spell .original ps) = true ∧ _))

variable {e : Edition} {free : Bool} {text : Edition → List Char} {ps : List Part}

theorem Synonyms.normal (h : Synonyms text) : Command.normalize (String.ofList (text .respelled)) =
    Command.normalize (String.ofList (text .original)) := by
  obtain ⟨c, _, hNormal⟩ := h.command
  exact (hNormal .respelled).trans (hNormal .original).symm

theorem Synonyms.some (h : Synonyms text) (e : Edition) : text e ≠ [] := by
  intro hNone
  obtain ⟨c, hCommand, hNormal⟩ := h.command
  have hHead := Command.normalize_head hCommand
  rw [← hNormal e, hNone, Command.normalize_ofList] at hHead
  exact absurd hHead (by decide)

theorem Synonyms.not_foreign (h : Synonyms text) {k : List Char} (hk : k ∈ foreign) (e : Edition) :
    ¬ k <+: text e := by
  rintro ⟨more, hText⟩
  obtain ⟨c, hCommand, hNormal⟩ := h.command
  refine no_foreign_command k hk c.name (List.mem_map_of_mem hCommand) ?_
  rw [← hNormal e, ← hText, Command.normalize_ofList, Command.normalize_ofList, List.filter_append,
    List.flatMap_append]
  exact List.prefix_append _ _

/-- A word begins with a character for names. -/
theorem Synonyms.begins (h : Synonyms text) (e : Edition) :
    ∃ c cs, text e = c :: cs ∧ isNameChar c = true := by
  obtain ⟨c, cs, hText⟩ := List.exists_cons_of_ne_nil (h.some e)
  exact ⟨c, cs, hText, h.named e c (by simp [hText])⟩

theorem WellSpelled.tail {p : Part} (h : WellSpelled free (p :: ps)) :
    ∃ free, WellSpelled free ps := by
  cases p with
  | same c => exact ⟨_, h⟩
  | word text => exact ⟨_, h.2.2.2⟩

theorem WellSpelled.suffix {qs : List Part} (h : WellSpelled free (ps ++ qs)) :
    ∃ free, WellSpelled free qs := by
  induction ps generalizing free with
  | nil => exact ⟨_, h⟩
  | cons p ps ih =>
      obtain ⟨free, hTail⟩ := h.tail
      exact ih hTail

theorem Akin.endsWord {t t' : List Char} (h : Akin t t') : endsWord t' = endsWord t := by
  cases h with
  | nil => rfl
  | same c hSlash => simp [Script.endsWord, hSlash]
  | named hc hc' =>
      have hName := isNameChar_iff.mp hc
      have hName' := isNameChar_iff.mp hc'
      simp [Script.endsWord, hName.1, hName'.1, hName.2.2.2.1, hName'.2.2.2.1]

theorem WellSpelled.akin (h : WellSpelled free ps) (e e' : Edition) :
    Akin (spell e ps) (spell e' ps) := by
  induction ps generalizing free with
  | nil => exact .nil
  | cons p ps ih =>
      cases p with
      | same c => exact .same c (ih h).head_slash
      | word text =>
          obtain ⟨c, cs, hText, hName⟩ := h.2.1.begins e
          obtain ⟨c', cs', hText', hName'⟩ := h.2.1.begins e'
          rw [spell_word, spell_word, hText, hText']
          exact .named hName hName'

/-! Scans over characters stop at the same part of both texts. -/

/-- In both texts the scan stops at the same part. -/
def Stops (ps : List Part) (scan : Nat → List Char → Place) : Prop :=
  ∃ passed rest, ps = passed ++ rest ∧ ∀ e pos,
    scan pos (spell e ps) = ⟨pos + Text.width (spell e passed), spell e rest⟩

namespace Stops

variable {scan next : Nat → List Char → Place}

theorem here (h : ∀ e pos, scan pos (spell e ps) = ⟨pos, spell e ps⟩) : Stops ps scan :=
  ⟨[], ps, rfl, h⟩

/-- Passing the first part. -/
theorem part {p : Part} (hStep : ∀ e pos,
      scan pos (p.text e ++ spell e ps) = next (pos + Text.width (p.text e)) (spell e ps))
    (h : Stops ps next) : Stops (p :: ps) scan := by
  obtain ⟨passed, rest, hParts, hNext⟩ := h
  refine ⟨p :: passed, rest, by rw [hParts, List.cons_append], fun e pos => ?_⟩
  change scan pos (p.text e ++ spell e ps) = _
  rw [hStep, hNext]
  change _ = Place.mk (pos + Text.width (p.text e ++ spell e passed)) _
  rw [Text.width_append, Nat.add_assoc]

/-- Passing a character that both texts begin with. -/
theorem same {c : Char}
    (hStep : ∀ e pos, scan pos (c :: spell e ps) = next (pos + c.utf8Size) (spell e ps))
    (h : Stops ps next) : Stops (.same c :: ps) scan :=
  .part (p := .same c) hStep h

end Stops

theorem lineEnd_word {w : List Char} (h : ∀ c ∈ w, isNameChar c = true) (pos : Nat)
    (cs : List Char) : lineEnd pos (w ++ cs) = lineEnd (pos + Text.width w) cs := by
  induction w generalizing pos with
  | nil => rfl
  | cons c w ih =>
      obtain ⟨hc, hw⟩ := List.forall_mem_cons.mp h
      rw [List.cons_append, lineEnd, if_neg (isNameChar_ne_newline hc), ih hw, Text.width_cons,
        Nat.add_assoc]

theorem lineEnd_stops (h : WellSpelled free ps) : Stops ps lineEnd := by
  induction ps generalizing free with
  | nil => exact .here fun _ _ => rfl
  | cons p ps ih =>
      obtain ⟨_, hTail⟩ := h.tail
      cases p with
      | same c =>
          by_cases hc : c = '\n'
          · exact .here fun e pos => by rw [spell_same, lineEnd, if_pos hc]
          · exact .same (fun e pos => by rw [lineEnd, if_neg hc]) (ih hTail)
      | word text => exact .part (fun e pos => lineEnd_word (h.2.1.named e) pos _) (ih hTail)

theorem skipGaps_word {w : List Char} (h : ∀ c ∈ w, isNameChar c = true) (lines : Bool) (pos : Nat)
    (cs : List Char) :
    skipGaps lines true pos (w ++ cs) = skipGaps lines true (pos + Text.width w) cs := by
  induction w generalizing pos with
  | nil => rfl
  | cons c w ih =>
      obtain ⟨hc, hw⟩ := List.forall_mem_cons.mp h
      rw [List.cons_append, skipGaps, if_neg (isNameChar_ne_newline hc), Bool.true_or, if_pos rfl,
        ih hw, Text.width_cons, Nat.add_assoc]

theorem skipGaps_stops (lines remark : Bool) (h : WellSpelled free ps) :
    Stops ps fun pos cs => (skipGaps lines remark pos cs).1 := by
  induction ps generalizing free remark with
  | nil => exact .here fun _ _ => rfl
  | cons p ps ih =>
      obtain ⟨_, hTail⟩ := h.tail
      cases p with
      | same c =>
          by_cases hc : c = '\n'
          · subst hc
            cases lines with
            | false => exact .here fun e pos => by simp [skipGaps]
            | true =>
                exact .same (fun e pos => by simp [skipGaps]; rfl) (ih false hTail)
          by_cases hGap : (remark || isGap c) = true
          · exact .same (fun e pos => by rw [skipGaps, if_neg hc, if_pos hGap]) (ih remark hTail)
          -- Whether a remark begins is told by what follows, which is alike in both texts.
          have hSlash (e : Edition) := (WellSpelled.akin hTail .original e).head_slash
          by_cases hRemark : c = '/' ∧ (spell .original ps).head? = some '/'
          · obtain ⟨rfl, hNext⟩ := hRemark
            refine .same (fun e pos => ?_) (ih true hTail)
            rw [skipGaps, if_neg hc, if_neg hGap, if_pos (by simp [(hSlash e).mpr hNext])]
            rfl
          · refine .here fun e pos => ?_
            have hStays : (decide (c = '/') && decide ((spell e ps).head? = some '/')) = false := by
              simpa [hSlash e] using hRemark
            rw [spell_same, skipGaps, if_neg hc, if_neg hGap, hStays]
            rfl
      | word text =>
          cases remark with
          | true =>
              exact .part (fun e pos => congrArg Prod.fst (skipGaps_word (h.2.1.named e) lines pos _))
                (ih true hTail)
          | false =>
              refine .here fun e pos => ?_
              obtain ⟨c, cs, hText, hName⟩ := h.2.1.begins e
              obtain ⟨hGap, _, _, hSlash, _⟩ := isNameChar_iff.mp hName
              rw [spell_word, hText, List.cons_append, skipGaps, if_neg (isNameChar_ne_newline hName)]
              simp [hGap, hSlash]

/-- Offsets of the two texts: before the same part, or beyond the ends of both. -/
def Parallel (ps : List Part) (pos : Edition → Nat) : Prop :=
  (∃ passed rest, ps = passed ++ rest ∧ ∀ e, pos e = Text.width (spell e passed)) ∨
    ∀ e, pos e = Text.width (spell e ps) + 1

theorem Parallel.pick {pos : Edition → Nat} (h : Parallel ps pos) :
    Parallel ps (Edition.pick (pos .original) (pos .respelled)) := by
  rwa [Edition.pick_eta]

theorem Parallel.behind {pos : Edition → Nat} (h : Parallel ps pos) (passed : List Part) :
    Parallel (passed ++ ps) fun e => Text.width (spell e passed) + pos e := by
  rcases h with ⟨before, rest, hParts, hPos⟩ | hBeyond
  · refine .inl ⟨passed ++ before, rest, by rw [hParts, List.append_assoc], fun e => ?_⟩
    simp only [hPos, spell_append, Text.width_append]
  · refine .inr fun e => ?_
    simp only [hBeyond, spell_append, Text.width_append, Nat.add_assoc]

/-- A character for names begins and ends neither a quoted string nor a remark. -/
theorem after_name (zone : Zone) {c : Char} (h : isNameChar c = true)
    (next : Option Char) : zone.after c next = zone := by
  obtain ⟨_, hQuote, _, hSlash, _⟩ := isNameChar_iff.mp h
  cases zone <;> simp [Zone.after, hQuote, hSlash, isNameChar_ne_newline h]

theorem after_akin {t t' : List Char} (h : Akin t t') (zone : Zone) (c : Char) :
    zone.after c t'.head? = zone.after c t.head? := by
  have hSlash := h.head_slash
  cases zone <;> simp [Zone.after, hSlash]

theorem closeBlock_word {w : List Char} (h : ∀ c ∈ w, isNameChar c = true) (zone : Zone)
    (depth pos : Nat) (cs : List Char) :
    closeBlock zone depth pos (w ++ cs) = closeBlock zone depth (pos + Text.width w) cs := by
  induction w generalizing pos with
  | nil => rfl
  | cons c w ih =>
      obtain ⟨hc, hw⟩ := List.forall_mem_cons.mp h
      obtain ⟨_, _, _, _, _, hOpen, hClose⟩ := isNameChar_iff.mp hc
      rw [List.cons_append, closeBlock]
      simp only [after_name zone hc, hOpen, hClose, decide_false, Bool.and_false]
      rw [if_neg Bool.false_ne_true, if_neg Bool.false_ne_true, ih hw, Text.width_cons, Nat.add_assoc]

theorem closeBlock_parallel (zone : Zone) (depth : Nat) (h : WellSpelled free ps) :
    ∃ passed closed, Parallel ps passed ∧ ∀ e pos,
      closeBlock zone depth pos (spell e ps) = (pos + passed e, closed) := by
  induction ps generalizing free zone depth with
  | nil =>
      by_cases hQuoted : zone = .quoted
      · exact ⟨fun _ => 1, false, .inr fun _ => rfl, fun e pos => by simp [closeBlock, hQuoted]⟩
      · exact ⟨fun _ => 0, false, .inl ⟨[], [], rfl, fun _ => rfl⟩,
          fun e pos => by simp [closeBlock, hQuoted]⟩
  | cons p ps ih =>
      obtain ⟨_, hTail⟩ := h.tail
      -- Going on behind the first part.
      have hPart (zone' : Zone) (depth' : Nat) (hStep : ∀ e pos,
          closeBlock zone depth pos (p.text e ++ spell e ps) =
            closeBlock zone' depth' (pos + Text.width (p.text e)) (spell e ps)) :
          ∃ passed closed, Parallel (p :: ps) passed ∧ ∀ e pos,
            closeBlock zone depth pos (spell e (p :: ps)) = (pos + passed e, closed) := by
        obtain ⟨passed, closed, hParallel, hNext⟩ := ih zone' depth' hTail
        refine ⟨_, closed, hParallel.behind [p], fun e pos => ?_⟩
        change closeBlock zone depth pos (p.text e ++ spell e ps) = _
        rw [hStep, hNext]
        simp [spell, Nat.add_assoc]
      cases p with
      | same c =>
          have hAfter (e : Edition) := after_akin (WellSpelled.akin hTail .original e) zone c
          by_cases hOpen : (zone = .plain && c = '\x7b') = true
          · obtain rfl : c = '\x7b' := by simp_all
            refine hPart (zone.after '\x7b' (spell .original ps).head?) (depth + 1) fun e pos => ?_
            change closeBlock zone depth pos ('\x7b' :: spell e ps) = _
            rw [closeBlock, if_pos hOpen, hAfter]
            rfl
          by_cases hClose : (zone = .plain && c = '\x7d') = true
          · obtain rfl : c = '\x7d' := by simp_all
            by_cases hLast : depth ≤ 1
            · refine ⟨fun _ => 1, true, .inl ⟨[.same '\x7d'], ps, rfl, fun e => rfl⟩, fun e pos => ?_⟩
              rw [spell_same, closeBlock, if_neg hOpen, if_pos hClose, if_pos hLast]
            · refine hPart (zone.after '\x7d' (spell .original ps).head?) (depth - 1) fun e pos => ?_
              change closeBlock zone depth pos ('\x7d' :: spell e ps) = _
              rw [closeBlock, if_neg hOpen, if_pos hClose, if_neg hLast, hAfter]
              rfl
          · refine hPart (zone.after c (spell .original ps).head?) depth fun e pos => ?_
            change closeBlock zone depth pos (c :: spell e ps) = _
            rw [closeBlock, if_neg hOpen, if_neg hClose, hAfter]
            rfl
      | word text => exact hPart zone depth fun e pos => closeBlock_word (h.2.1.named e) zone depth pos _

/-! A word that both texts have at the same place is read as the same command. -/

/-- What is read as one word: the same text, a word with two spellings, or one right behind text that
has a closing brace. -/
inductive ReadAs (free : Bool) : (Edition → List Char) → Prop where
  | same (v : List Char) : ReadAs free fun _ => v
  | word {text : Edition → List Char} (hFree : free = true) (hText : Synonyms text) :
      ReadAs free text
  | behind {before : List Char} {text : Edition → List Char} (hBrace : '\x7d' ∈ before)
      (hText : Synonyms text) : ReadAs free fun e => before ++ text e

namespace ReadAs

variable {value : Edition → List Char}

theorem weaken (h : ReadAs false value) : ReadAs free value := by
  cases h with
  | same v => exact .same v
  | word hFree _ => cases hFree
  | behind hBrace hText => exact .behind hBrace hText

theorem cons {c : Char} (h : ReadAs (decide (c = '\x7d')) value) :
    ReadAs free fun e => c :: value e := by
  cases h with
  | same v => exact .same (c :: v)
  | word hFree hText =>
      obtain rfl := of_decide_eq_true hFree
      exact .behind (List.mem_singleton.mpr rfl : '\x7d' ∈ ['\x7d']) hText
  | behind hBrace hText => exact .behind (List.mem_cons_of_mem _ hBrace) hText

theorem eq_iff (h : ReadAs free value) {k : List Char} {e : Edition}
    (hk : ∀ {text}, Synonyms text → (text e = k ↔ text .original = k)) (hBrace : '\x7d' ∉ k.dropLast) :
    value e = k ↔ value .original = k := by
  cases h with
  | same v => exact Iff.rfl
  | word _ hText => exact hk hText
  | @behind before text hBefore hText =>
      have hNone (e : Edition) : before ++ text e ≠ k := by
        rintro rfl
        rw [List.dropLast_append_of_ne_nil (hText.some e)] at hBrace
        exact hBrace (List.mem_append_left _ hBefore)
      simp only [hNone]

/-- The word is a keyword in both texts or in none. -/
theorem keyword (h : ReadAs free value) {k : List Char} (hk : k ∈ keywords) (e : Edition) :
    value e = k ↔ value .original = k := by
  refine h.eq_iff (fun hText => ?_) ?_
  · cases e with
    | original => exact Iff.rfl
    | respelled => exact hText.keyword k hk
  · revert k
    decide

/-- What begins no command stands for itself in both texts or in none. -/
theorem eq_foreign (h : ReadAs free value) {k : List Char} (hk : k ∈ foreign) (e : Edition) :
    value e = k ↔ value .original = k := by
  refine h.eq_iff (fun hText => ?_) ?_
  · have hNone (e : Edition) : _ ≠ k := fun hEq => hText.not_foreign hk e (hEq ▸ List.prefix_refl _)
    simp only [hNone]
  · revert k
    decide

/-- It begins the word in both texts or in none. -/
theorem leads_foreign (h : ReadAs free value) {k : List Char} (hk : k ∈ foreign) (e : Edition) :
    k <+: value e ↔ k <+: value .original := by
  cases h with
  | same v => exact Iff.rfl
  | word _ hText => simp only [hText.not_foreign hk]
  | @behind before text hBefore hText =>
      have hBrace : '\x7d' ∉ k.dropLast := by
        revert k
        decide
      have hIff (e : Edition) : k <+: before ++ text e ↔ k <+: before := by
        refine ⟨fun hLeads => ?_, fun hLeads => hLeads.trans (List.prefix_append _ _)⟩
        rcases List.prefix_or_prefix_of_prefix hLeads (List.prefix_append before _) with
          hShort | ⟨more, rfl⟩
        · exact hShort
        · cases more with
          | nil => exact (List.append_nil before).symm ▸ List.prefix_rfl
          | cons c more =>
              rw [List.dropLast_append_of_ne_nil (List.cons_ne_nil c more)] at hBrace
              exact absurd (List.mem_append_left _ hBefore) hBrace
      simp only [hIff]

theorem eq_nil (h : ReadAs free value) (e : Edition) : value e = [] ↔ value .original = [] := by
  refine h.eq_iff (fun hText => ?_) List.not_mem_nil
  simp only [hText.some]

/-- The word has the same normal form in both texts. -/
theorem normal (h : ReadAs free value) : Command.normalize (String.ofList (value .respelled)) =
    Command.normalize (String.ofList (value .original)) := by
  cases h with
  | same v => rfl
  | word _ hText => exact hText.normal
  | behind hBrace hText =>
      have hNormal := congrArg String.toList hText.normal
      simp only [Command.normalize, String.toList_ofList] at hNormal ⊢
      rw [List.filter_append, List.filter_append, List.flatMap_append, List.flatMap_append, hNormal]

end ReadAs

theorem commandWord_ended {cs : List Char} (h : endsWord cs = true) (pos : Nat) :
    commandWord pos cs = ⟨[], ⟨pos, cs⟩, []⟩ := by
  cases cs with
  | nil => rfl
  | cons c cs =>
      rw [endsWord] at h
      rw [commandWord, if_pos h]

theorem commandWord_word {w cs : List Char} (h : ∀ c ∈ w, isNameChar c = true)
    (hEnd : endsWord cs = true) (pos : Nat) :
    commandWord pos (w ++ cs) = ⟨w, ⟨pos + Text.width w, cs⟩, []⟩ := by
  induction w generalizing pos with
  | nil => exact commandWord_ended hEnd pos
  | cons c w ih =>
      obtain ⟨hc, hw⟩ := List.forall_mem_cons.mp h
      obtain ⟨hGap, hQuote, hTilde, hSlash, _⟩ := isNameChar_iff.mp hc
      rw [List.cons_append, commandWord, ih hw]
      simp [hGap, hQuote, hTilde, hSlash, Nat.add_assoc]

theorem commandWord_stops (h : WellSpelled free ps) :
    ∃ value, ReadAs free value ∧ (∀ e pos, (commandWord pos (spell e ps)).value = value e) ∧
      Stops ps fun pos cs => (commandWord pos cs).stop := by
  induction ps generalizing free with
  | nil => exact ⟨fun _ => [], .same [], fun _ _ => rfl, .here fun _ _ => rfl⟩
  | cons p ps ih =>
      cases p with
      | same c =>
          have hTail : WellSpelled (isGap c || c = '\x7d') ps := h
          by_cases hEnd : endsWord (spell .original (.same c :: ps)) = true
          · have hEnded (e : Edition) (pos : Nat) :=
              commandWord_ended ((h.akin .original e).endsWord.trans hEnd) pos
            exact ⟨fun _ => [], .same [], fun e pos => by rw [hEnded],
              .here fun e pos => by rw [hEnded]⟩
          · have hGoes (e : Edition) :
                ¬ (isGap c || (decide (c = '/') && decide ((spell e ps).head? = some '/'))) = true := by
              intro hStop
              exact hEnd ((h.akin e .original).endsWord.trans hStop)
            have hFree : (isGap c || decide (c = '\x7d')) = decide (c = '\x7d') := by
              have hGap := hGoes .original
              simp only [Bool.or_eq_true, not_or, Bool.not_eq_true] at hGap
              rw [hGap.1, Bool.false_or]
            rw [hFree] at hTail
            obtain ⟨value, hRead, hValue, hStops⟩ := ih hTail
            by_cases hDropped : (c = '"' || c = '~') = true
            · refine ⟨value, ?_, fun e pos => ?_, .same (fun e pos => ?_) hStops⟩
              · have hBrace : decide (c = '\x7d') = false := by
                  simp only [Bool.or_eq_true, decide_eq_true_eq] at hDropped
                  rcases hDropped with rfl | rfl <;> rfl
                rw [hBrace] at hRead
                exact hRead.weaken
              · rw [spell_same, commandWord, if_neg (hGoes e)]
                simp only [hDropped, if_true, hValue]
              · rw [commandWord, if_neg (hGoes e)]
                simp only [hDropped, if_true]
            · refine ⟨_, hRead.cons (c := c), fun e pos => ?_, .same (fun e pos => ?_) hStops⟩
              · rw [spell_same, commandWord, if_neg (hGoes e)]
                simp only [hDropped, hValue]
                rfl
              · rw [commandWord, if_neg (hGoes e)]
                simp only [hDropped]
                rfl
      | word text =>
          obtain ⟨hFree, hText, hEnd, hTail⟩ := h
          have hWord (e : Edition) (pos : Nat) := commandWord_word (hText.named e)
            ((WellSpelled.akin hTail .original e).endsWord.trans hEnd) pos
          refine ⟨text, .word hFree hText, fun e pos => ?_, [.word text], ps, rfl, fun e pos => ?_⟩
          · rw [spell_word, hWord]
          · simp only [spell_word, hWord]
            simp [spell]

/-! Places of a whole script. -/

/-- The places lie before the same part of both texts. -/
def Abreast (ps : List Part) (place : Edition → Place) : Prop :=
  ∃ passed rest, ps = passed ++ rest ∧
    ∀ e, place e = ⟨Text.width (spell e passed), spell e rest⟩

/-- The script in one of its spellings. -/
def edition (name : String) (ps : List Part) (e : Edition) : Script := ⟨name, spell e ps⟩

variable {name : String} {place : Edition → Place}

theorem Abreast.holds (name : String) (h : Abreast ps place) (e : Edition) : (edition name ps e).Holds (place e) := by
  obtain ⟨passed, rest, hParts, hPlace⟩ := h
  rw [Holds, from?, edition, hPlace, hParts, spell_append]
  exact Text.from?_width_append _ _

theorem Abreast.parallel (h : Abreast ps place) : Parallel ps fun e => (place e).pos := by
  obtain ⟨passed, rest, hParts, hPlace⟩ := h
  exact .inl ⟨passed, rest, hParts, fun e => congrArg Place.pos (hPlace e)⟩

/-- A scan leads from places abreast to places abreast. -/
theorem Stops.abreast {scan : Nat → List Char → Place} {passed rest : List Part}
    (hParts : ps = passed ++ rest) (h : Stops rest scan) :
    Abreast ps fun e => scan (Text.width (spell e passed)) (spell e rest) := by
  obtain ⟨more, behind, hRest, hScan⟩ := h
  refine ⟨passed ++ more, behind, by rw [hParts, hRest, List.append_assoc], fun e => ?_⟩
  simp only [hScan, spell_append, Text.width_append]

theorem Abreast.skipGaps (hWords : WellSpelled true ps) (lines : Bool) (h : Abreast ps place) :
    Abreast ps fun e => (Script.skipGaps lines false (place e).pos (place e).rest).1 := by
  obtain ⟨passed, rest, hParts, hPlace⟩ := h
  subst hParts
  obtain ⟨_, hRest⟩ := hWords.suffix
  simp only [hPlace]
  exact (skipGaps_stops lines false hRest).abreast rfl

theorem Abreast.lineEnd (hWords : WellSpelled true ps) (h : Abreast ps place) :
    Abreast ps fun e => Script.lineEnd (place e).pos (place e).rest := by
  obtain ⟨passed, rest, hParts, hPlace⟩ := h
  subst hParts
  obtain ⟨_, hRest⟩ := hWords.suffix
  simp only [hPlace]
  exact (lineEnd_stops hRest).abreast rfl

theorem Abreast.commandWord (hWords : WellSpelled true ps) (h : Abreast ps place) :
    (∃ free, ReadAs free fun e => (Script.commandWord (place e).pos (place e).rest).value) ∧
      Abreast ps fun e => (Script.commandWord (place e).pos (place e).rest).stop := by
  obtain ⟨passed, rest, hParts, hPlace⟩ := h
  subst hParts
  obtain ⟨_, hRest⟩ := hWords.suffix
  obtain ⟨value, hRead, hValue, hStops⟩ := commandWord_stops hRest
  simp only [hPlace, hValue]
  exact ⟨⟨_, hRead⟩, hStops.abreast rfl⟩

/-- The offset lies in a condition: behind a word that denotes `if` and before the place where reading
the condition stops. -/
def InCondition (s : Script) (offset : Nat) : Prop :=
  ∃ pos ≤ offset, (s.from? pos).any fun cs =>
    let word := commandWord pos cs
    Command.normalize (String.ofList word.value) = "if" ∧ word.stop.pos ≤ offset ∧
      offset < (Condition.read word.stop).2.pos

instance (s : Script) (offset : Nat) : Decidable (InCondition s offset) :=
  inferInstanceAs (Decidable (∃ pos ≤ offset, _))

/-- The offsets of the original text at which words with two spellings begin. -/
def wordOffsets (pos : Nat) : List Part → List Nat
  | [] => []
  | .same c :: ps => wordOffsets (pos + c.utf8Size) ps
  | .word text :: ps => pos :: wordOffsets (pos + Text.width (text .original)) ps

theorem mem_wordOffsets (pos : Nat) (passed : List Part) (text : Edition → List Char)
    (rest : List Part) :
    pos + Text.width (spell .original passed) ∈ wordOffsets pos (passed ++ .word text :: rest) := by
  induction passed generalizing pos with
  | nil => exact List.mem_cons_self
  | cons p passed ih =>
      cases p with
      | same c =>
          rw [spell_same, Text.width_cons, ← Nat.add_assoc]
          exact ih _
      | word text =>
          rw [spell_word, Text.width_append, ← Nat.add_assoc]
          exact List.mem_cons_of_mem _ (ih _)

/-- No word with two spellings belongs to a word of the text that begins like a label. `word` tells how
the word begins that has been read so far, if there is one. -/
def Unlabelled (word : Option Bool) : List Part → Prop
  | [] => True
  | .same c :: ps => Unlabelled (if isBreak c then none else word.or (some (c = '>'))) ps
  | .word _ :: ps => word ≠ some true ∧ Unlabelled (word.or (some false)) ps

instance instDecidableUnlabelled (word : Option Bool) : ∀ ps, Decidable (Unlabelled word ps)
  | [] => inferInstanceAs (Decidable True)
  | .same _ :: ps => instDecidableUnlabelled _ ps
  | .word _ :: ps =>
    have := instDecidableUnlabelled (word.or (some false)) ps
    inferInstanceAs (Decidable (word ≠ some true ∧ _))

/-- The parts are a script in two spellings: each word with two spellings stands by itself, and outside
of labels and conditions. -/
structure Respelling (ps : List Part) : Prop where
  words : WellSpelled true ps
  labels : Unlabelled none ps
  conditions : ∀ offset ∈ wordOffsets 0 ps, ¬ InCondition (edition "" ps .original) offset

instance (ps : List Part) : Decidable (Respelling ps) :=
  decidable_of_iff (WellSpelled true ps ∧ Unlabelled none ps ∧
      ∀ offset ∈ wordOffsets 0 ps, ¬ InCondition (edition "" ps .original) offset)
    ⟨fun h => ⟨h.1, h.2.1, h.2.2⟩, fun h => ⟨h.words, h.labels, h.conditions⟩⟩

/-- Up to the first word with two spellings the texts are the same. -/
theorem exists_same_of_outside {cs : List Char} (t : List Char) (hText : spell .original ps = cs ++ t)
    (hOutside : ∀ passed text rest, ps = passed ++ .word text :: rest →
      Text.width cs ≤ Text.width (spell .original passed)) (hWords : WellSpelled free ps) :
    ∃ rest, ps = cs.map Part.same ++ rest ∧ spell .original rest = t := by
  induction cs generalizing ps free with
  | nil => exact ⟨ps, rfl, hText⟩
  | cons c cs ih =>
      cases ps with
      | nil => cases hText
      | cons p ps =>
          cases p with
          | word text =>
              have hNone := hOutside [] text ps rfl
              have hSize := Char.utf8Size_pos c
              simp at hNone
              omega
          | same d =>
              obtain ⟨rfl, hRest⟩ := List.cons.inj hText
              have hBehind (passed : List Part) (text : Edition → List Char) (rest : List Part)
                  (hParts : ps = passed ++ .word text :: rest) :
                  Text.width cs ≤ Text.width (spell .original passed) := by
                have hLe := hOutside (.same d :: passed) text rest (by rw [hParts, List.cons_append])
                simp only [spell_same, Text.width_cons] at hLe
                omega
              obtain ⟨rest, hParts, hSpell⟩ := ih hRest hBehind hWords
              exact ⟨rest, by rw [hParts, List.map_cons, List.cons_append], hSpell⟩

@[simp] theorem spell_map_same (e : Edition) (cs : List Char) : spell e (cs.map Part.same) = cs := by
  induction cs with
  | nil => rfl
  | cons c cs ih => rw [List.map_cons, spell_same, ih]

/-- Behind a word that denotes `if`, both texts have the same condition. -/
theorem Respelling.condition (hSpelling : Respelling ps) (h : Abreast ps place)
    (hIf : Command.normalize (String.ofList
      (commandWord (place .original).pos (place .original).rest).value) = "if") :
    (Condition.read (commandWord (place .original).pos (place .original).rest).stop).1.Matches
        (Condition.read (commandWord (place .respelled).pos (place .respelled).rest).stop).1 ∧
      Abreast ps fun e =>
        (Condition.read (commandWord (place e).pos (place e).rest).stop).2 := by
  have hHolds := h.holds "" .original
  obtain ⟨-, passed, rest, hParts, hStop⟩ := h.commandWord hSpelling.words
  dsimp only at hStop
  simp only [hStop]
  obtain ⟨crossed, hCrossed, hPos⟩ := Condition.read_reaches
    ⟨Text.width (spell .original passed), spell .original rest⟩
  dsimp only at hCrossed hPos
  have hOutside (before : List Part) (text : Edition → List Char) (after : List Part)
      (hWord : rest = before ++ .word text :: after) :
      Text.width crossed ≤ Text.width (spell .original before) := by
    have hOffset := mem_wordOffsets 0 (passed ++ before) text after
    rw [List.append_assoc, ← hWord, ← hParts, Nat.zero_add, spell_append, Text.width_append] at hOffset
    refine Nat.not_lt.mp fun hInside => hSpelling.conditions _ hOffset ⟨(place .original).pos, ?_, ?_⟩
    · refine Nat.le_trans (commandWord_reaches _ _).le ?_
      rw [hStop]
      exact Nat.le_add_right _ _
    · have hText : (edition "" ps .original).from? (place .original).pos =
        some (place .original).rest := hHolds
      simp only [hText, Option.any_some, Bool.decide_and, Bool.and_eq_true, decide_eq_true_eq]
      refine ⟨hIf, ?_, ?_⟩
      · rw [hStop]
        exact Nat.le_add_right _ _
      · rw [hStop, hPos]
        exact Nat.add_lt_add_left hInside _
  obtain ⟨_, hRest⟩ := (hParts ▸ hSpelling.words).suffix
  obtain ⟨behind, hBehind, hSpell⟩ := exists_same_of_outside _ hCrossed hOutside hRest
  have hText (e : Edition) : spell e rest = crossed ++ spell e behind := by
    rw [hBehind, spell_append, spell_map_same]
  obtain ⟨_, hTail⟩ := (hBehind ▸ hRest).suffix
  have hShares : Place.Shares (spell .original behind) (spell .respelled behind)
      ⟨Text.width (spell .original passed), spell .original rest⟩
      ⟨Text.width (spell .respelled passed), spell .respelled rest⟩ :=
    ⟨crossed, hText .original, hText .respelled⟩
  obtain ⟨hMatches, shared, hOriginal, hRespelled⟩ :=
    Condition.read_alike (hTail.akin .original .respelled) hShares (hSpell ▸ List.suffix_refl _)
  rw [← hSpell] at hOriginal
  obtain rfl : shared = [] := List.self_eq_append_left.mp hOriginal
  have hBehindText (e : Edition) :
      (Condition.read ⟨Text.width (spell e passed), spell e rest⟩).2.rest = spell e behind := by
    cases e with
    | original => exact hSpell.symm
    | respelled => exact hRespelled
  refine ⟨hMatches, passed ++ crossed.map Part.same, behind,
    by rw [hParts, hBehind, List.append_assoc], fun e => ?_⟩
  obtain ⟨more, hMore, hEnd⟩ := Condition.read_reaches ⟨Text.width (spell e passed), spell e rest⟩
  dsimp only at hMore hEnd
  rw [hBehindText, hText] at hMore
  rw [← List.append_cancel_right hMore] at hEnd
  dsimp only
  rw [spell_append, spell_map_same, Text.width_append, ← hEnd, ← hBehindText]

/-- Offsets in the two texts come to the same failure, or to offsets that are parallel again. -/
inductive Lands (ps : List Part) (scan : Edition → Except Fault (Nat × List Note)) :
    Prop where
  | error (f : Fault) (hError : ∀ e, scan e = .error f)
  | ok {stop : Edition → Nat} (hStop : Parallel ps stop)
      (hOk : ∀ e, ∃ notes, scan e = .ok (stop e, notes))

theorem Lands.congr {scan scan' : Edition → Except Fault (Nat × List Note)} (h : Lands ps scan)
    (hScan : ∀ e, scan' e = scan e) : Lands ps scan' := by
  obtain rfl : scan' = scan := funext hScan
  exact h

/-- A command word that is looked for at parallel offsets is read at the same part of both texts. -/
inductive ReadsWord (ps : List Part) (scan : Edition → Except Fault (Scan (List Char))) : Prop where
  | error (hError : ∀ e, scan e = .error .outsideText)
  | ok {place : Edition → Place} (hPlace : Abreast ps place)
      (hOk : ∀ e, scan e = .ok (Script.commandWord (place e).pos (place e).rest))

/-- Beyond the end there is nothing to read. -/
theorem from?_beyond {e : Edition} {pos : Nat} (h : pos = Text.width (spell e ps) + 1) :
    (edition name ps e).from? pos = none := by
  have hInvalid : ¬ (edition name ps e).Valid pos := by
    intro hValid
    have hLe : pos ≤ Text.width (spell e ps) := hValid.le_size
    omega
  simpa [Valid] using hInvalid

theorem Respelling.commandAt (hSpelling : Respelling ps) (name : String) (lines : Bool) {pos : Edition → Nat}
    (h : Parallel ps pos) :
    ReadsWord ps fun e => (edition name ps e).commandAt lines (pos e) := by
  rcases h with ⟨passed, rest, hParts, hPos⟩ | hBeyond
  · have hPlaces : Abreast ps fun e => ⟨pos e, spell e rest⟩ :=
      ⟨passed, rest, hParts, fun e => by simp only [hPos]⟩
    refine .ok (hPlaces.skipGaps hSpelling.words lines) fun e => ?_
    have hHolds : (edition name ps e).from? (pos e) = some (spell e rest) := hPlaces.holds name e
    simp only [Script.commandAt, hHolds]
  · refine .error fun e => ?_
    simp only [Script.commandAt, from?_beyond (hBeyond e)]

/-- Passing over a statement that begins with a word. -/
def skipWord (s : Script) (fuel : Nat) (start : Place) : Except Fault (Nat × List Note) :=
  let word := commandWord start.pos start.rest
  if word.value = ['i', 'f'] then do
    let (condition, body) := Condition.read word.stop
    let (afterBody, bodyNotes) ← s.skipStatement fuel body.pos
    let follower ← s.commandAt true afterBody
    let notes := word.notes ++ condition.notes ++ bodyNotes ++ follower.notes
    if follower.value = "else".toList then
      let (stop, elseNotes) ← s.skipStatement fuel follower.stop.pos
      .ok (stop, notes ++ elseNotes)
    else .ok (afterBody, notes)
  else .ok ((lineEnd start.pos start.rest).pos, word.notes)

/-- What passing over a statement does at the place behind the gaps. -/
theorem skipStatement_succ (s : Script) (fuel pos : Nat) :
    s.skipStatement (fuel + 1) pos =
      let start := (skipGaps true false pos (s.rest pos)).1
      match start.rest with
      | [] => .ok (start.pos, [⟨start.pos, "expected block, found end of script"⟩])
      | c :: cs =>
        if c = '\x7b' then
          let (stop, closed) := closeBlock .plain 1 (start.pos + 1) cs
          .ok (stop, if closed then [] else [⟨stop, "missing '\x7d' before end of script"⟩])
        else s.skipWord fuel start := rfl

/-- Passing over a word goes the same way in both texts if passing over the statements inside does. -/
theorem Respelling.skipWord (hSpelling : Respelling ps) {fuel : Nat}
    (hInside : ∀ {pos : Edition → Nat}, Parallel ps pos →
      Lands ps fun e => (edition name ps e).skipStatement fuel (pos e))
    (hStart : Abreast ps place) :
    Lands ps fun e => (edition name ps e).skipWord fuel (place e) := by
  obtain ⟨⟨_, hRead⟩, hStop⟩ := hStart.commandWord hSpelling.words
  by_cases hIf : (Script.commandWord (place .original).pos (place .original).rest).value = ['i', 'f']
  · have hIfs (e : Edition) := (hRead.keyword (k := ['i', 'f']) (by decide) e).mpr hIf
    obtain ⟨-, hBody⟩ := hSpelling.condition hStart (by rw [hIf]; decide)
    cases hInside hBody.parallel with
    | error f hError =>
        refine .error f fun e => ?_
        simp only [Script.skipWord, hIfs, if_true, hError]
        rfl
    | ok hAfter hOk =>
        cases hSpelling.commandAt name true hAfter with
        | error hError =>
            refine .error .outsideText fun e => ?_
            obtain ⟨bodyNotes, hOk⟩ := hOk e
            simp only [Script.skipWord, hIfs, if_true, hOk, bind, Except.bind, hError]
        | @ok behind hBehind hWord =>
            obtain ⟨⟨_, hFollower⟩, hElsewhere⟩ := hBehind.commandWord hSpelling.words
            by_cases hElse : (Script.commandWord (behind .original).pos (behind .original).rest).value =
                "else".toList
            · have hElses (e : Edition) := (hFollower.keyword (k := "else".toList) (by decide) e).mpr hElse
              cases hInside hElsewhere.parallel with
              | error f hError =>
                  refine .error f fun e => ?_
                  obtain ⟨bodyNotes, hOk⟩ := hOk e
                  simp only [Script.skipWord, hIfs, if_true, hOk, bind, Except.bind, hWord, hElses, hError]
              | ok hLast hOkLast =>
                  refine .ok hLast fun e => ?_
                  obtain ⟨bodyNotes, hOk⟩ := hOk e
                  obtain ⟨elseNotes, hOkLast⟩ := hOkLast e
                  simp only [Script.skipWord, hIfs, if_true, hOk, bind, Except.bind, hWord, hElses,
                    hOkLast]
                  exact ⟨_, rfl⟩
            · have hElses (e : Edition) :=
                (not_congr (hFollower.keyword (k := "else".toList) (by decide) e)).mpr hElse
              refine .ok hAfter fun e => ?_
              obtain ⟨bodyNotes, hOk⟩ := hOk e
              simp only [Script.skipWord, hIfs, if_true, hOk, bind, Except.bind, hWord, hElses,
                if_false]
              exact ⟨_, rfl⟩
  · have hNones (e : Edition) := (not_congr (hRead.keyword (k := ['i', 'f']) (by decide) e)).mpr hIf
    refine .ok (hStart.lineEnd hSpelling.words).parallel fun e => ?_
    simp only [Script.skipWord, hNones, if_false]
    exact ⟨_, rfl⟩

/-- Passing over a statement leads from parallel offsets to parallel offsets. -/
theorem Respelling.skipStatement (hSpelling : Respelling ps) (name : String) (fuel : Nat) {pos : Edition → Nat}
    (h : Parallel ps pos) :
    Lands ps fun e => (edition name ps e).skipStatement fuel (pos e) := by
  induction fuel generalizing pos with
  | zero => exact .ok h fun _ => ⟨_, rfl⟩
  | succ fuel ih =>
      rcases h with ⟨passed, rest, hParts, hPos⟩ | hBeyond
      · have hPlaces : Abreast ps fun e => ⟨pos e, spell e rest⟩ :=
          ⟨passed, rest, hParts, fun e => by simp only [hPos]⟩
        have hRest (e : Edition) : (edition name ps e).rest (pos e) = spell e rest :=
          (hPlaces.holds name e).rest_eq
        have hStart := hPlaces.skipGaps hSpelling.words true
        have hSkip := hSpelling.skipWord ih hStart
        have hHere := hStart.parallel
        obtain ⟨before, behind, hParts, hPlace⟩ := hStart
        dsimp only at hPlace hSkip
        simp only [skipStatement_succ, hRest, hPlace] at hSkip hHere ⊢
        obtain ⟨_, hBehind⟩ := (hParts ▸ hSpelling.words).suffix
        cases behind with
        | nil => exact .ok hHere fun e => ⟨_, rfl⟩
        | cons p behind =>
            cases p with
            | same c =>
                by_cases hBrace : c = '\x7b'
                · subst hBrace
                  have hTail : WellSpelled false behind := hBehind
                  obtain ⟨crossed, closed, hCrossed, hClose⟩ := closeBlock_parallel .plain 1 hTail
                  have hStop := hCrossed.behind (before ++ [.same '\x7b'])
                  rw [List.append_assoc, List.singleton_append, ← hParts] at hStop
                  refine .ok hStop fun e => ?_
                  simp only [spell_same, if_true, hClose, spell_append, Text.width_append]
                  exact ⟨_, rfl⟩
                · simpa only [spell_same, hBrace, if_false] using hSkip
            | word text =>
                refine hSkip.congr fun e => ?_
                obtain ⟨c, cs, hText, hName⟩ := hBehind.2.1.begins e
                obtain ⟨_, _, _, _, _, hBrace, _⟩ := isNameChar_iff.mp hName
                simp only [spell_word, hText, List.cons_append, hBrace, if_false]
      · refine .ok (.inr hBeyond) fun e => ?_
        have hNone : (edition name ps e).rest (pos e) = [] := by
          rw [Script.rest, from?_beyond (hBeyond e)]
          rfl
        simp only [skipStatement_succ, hNone]
        exact ⟨_, rfl⟩

end Script

end EntityScript
