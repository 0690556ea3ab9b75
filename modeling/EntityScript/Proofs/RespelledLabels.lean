import EntityScript.Proofs.Arguments
import EntityScript.Proofs.QuotedText
import Mathlib.Data.List.Forall2

/-! Labels and open blocks in two spellings of a script. A label that no word with two spellings has a part
in is found at the same part of both texts, and as many blocks are open there. -/
namespace EntityScript.Script

variable {free : Bool} {text : Edition → List Char} {ps passed rest : List Part}

theorem depthAfter_word {w : List Char} (h : ∀ c ∈ w, isNameChar c = true) (left : Nat) (zone : Zone)
    (depth : Nat) (cs : List Char) :
    depthAfter (Text.width w + left) zone depth (w ++ cs) = depthAfter left zone depth cs := by
  induction w with
  | nil => rw [Text.width_nil, Nat.zero_add, List.nil_append]
  | cons c w ih =>
      obtain ⟨hc, hw⟩ := List.forall_mem_cons.mp h
      obtain ⟨_, _, _, _, _, hOpen, hClose⟩ := isNameChar_iff.mp hc
      have hSize := Char.utf8Size_pos c
      have hLeft : Text.width (c :: w) + left ≠ 0 := by
        rw [Text.width_cons]
        omega
      have hRest : Text.width (c :: w) + left - c.utf8Size = Text.width w + left := by
        rw [Text.width_cons]
        omega
      rw [List.cons_append, depthAfter, if_neg hLeft, hRest, after_name zone hc]
      simp only [hOpen, hClose, if_false, ite_self]
      exact ih hw

theorem depthAfter_passed (beyond : Nat) (h : WellSpelled free (passed ++ rest))
    (hEnd : beyond = 0 ∨ rest = []) (zone : Zone) (depth : Nat) (e : Edition) :
    depthAfter (Text.width (spell e passed) + beyond) zone depth (spell e (passed ++ rest)) =
      depthAfter (Text.width (spell .original passed) + beyond) zone depth
        (spell .original (passed ++ rest)) := by
  induction passed generalizing free zone depth with
  | nil =>
      have hStays (e : Edition) :
          depthAfter (Text.width (spell e []) + beyond) zone depth (spell e ([] ++ rest)) = depth := by
        rcases hEnd with rfl | rfl
        · rw [spell_nil, Text.width_nil, List.nil_append]
          cases spell e rest <;> rfl
        · rfl
      rw [hStays, hStays]
  | cons p passed ih =>
      rw [List.cons_append] at h ⊢
      obtain ⟨_, hTail⟩ := h.tail
      cases p with
      | same c =>
          have hStep (e : Edition) (cs : List Char) :
              depthAfter (Text.width (c :: spell e passed) + beyond) zone depth (c :: cs) =
                depthAfter (Text.width (spell e passed) + beyond) (zone.after c cs.head?)
                  (if zone = .plain then if c = '\x7b' then depth + 1 else if c = '\x7d' then depth - 1
                    else depth else depth) cs := by
            have hSize := Char.utf8Size_pos c
            rw [Text.width_cons, depthAfter, if_neg (by omega),
              show c.utf8Size + Text.width (spell e passed) + beyond - c.utf8Size =
                Text.width (spell e passed) + beyond by omega]
          simp only [spell_same, hStep, after_akin (hTail.akin .original e)]
          exact ih hTail _ _
      | word text =>
          obtain ⟨_, hText, _⟩ : _ ∧ Synonyms text ∧ _ := h
          simp only [spell_word, Text.width_append, Nat.add_assoc]
          rw [depthAfter_word (hText.named e), depthAfter_word (hText.named .original)]
          exact ih hTail _ _

/-- As many blocks are open at the same part of both texts. -/
theorem Respelling.blockDepth (hSpelling : Respelling ps) (name : String) {pos : Edition → Nat}
    (h : Parallel ps pos) (e : Edition) :
    (edition name ps e).blockDepth (pos e) = (edition name ps .original).blockDepth (pos .original) := by
  rcases h with ⟨passed, rest, hParts, hPos⟩ | hBeyond
  · simp only [Script.blockDepth, edition, hPos, hParts]
    exact depthAfter_passed 0 (hParts ▸ hSpelling.words) (.inl rfl) .plain 0 e
  · simp only [Script.blockDepth, edition, hBeyond]
    have hWords : WellSpelled true (ps ++ []) := by rw [List.append_nil]; exact hSpelling.words
    have hDepth := depthAfter_passed 1 hWords (.inr rfl) .plain 0 e
    rwa [List.append_nil] at hDepth

/-- Labels of the same name, set at the same part of both texts. -/
def LabelAlike (ps : List Part) (l l' : String × Nat) : Prop :=
  l'.1 = l.1 ∧ Parallel ps (Edition.pick l.2 l'.2)

/-- The words that have been read so far in both texts: none, the same, or two that are no labels. -/
inductive RunAlike (pos pos' : Nat) : Option Bool → Option Run → Option Run → Prop where
  | none : RunAlike pos pos' none none none
  | same {c : Char} {cs : List Char} {start start' : Nat} {hidden : Bool}
      (hPos : start + Text.width (c :: cs) = pos) (hPos' : start' + Text.width (c :: cs) = pos') :
      RunAlike pos pos' (some (c = '>')) (some ⟨start, hidden, c :: cs⟩) (some ⟨start', hidden, c :: cs⟩)
  | other {c c' : Char} {cs cs' : List Char} {start start' : Nat} {hidden hidden' : Bool}
      (hc : c ≠ '>') (hc' : c' ≠ '>') : RunAlike pos pos' (some false)
        (some ⟨start, hidden, c :: cs⟩) (some ⟨start', hidden', c' :: cs'⟩)

theorem Run.label?_other {c : Char} (h : c ≠ '>') (start : Nat) (hidden : Bool) (cs : List Char) :
    Run.label? ⟨start, hidden, c :: cs⟩ = none := by
  unfold Run.label?
  split
  · rename_i hWord
    exact absurd (List.cons.inj hWord).1 h
  · rfl

namespace RunAlike

variable {pos pos' : Nat} {word : Option Bool} {run run' : Option Run}

/-- The words set the same label or none. -/
theorem labels (h : RunAlike pos pos' word run run') (hPos : Parallel ps (Edition.pick pos pos')) :
    List.Forall₂ (LabelAlike ps) (run.toList.filterMap Run.label?) (run'.toList.filterMap Run.label?) := by
  cases h with
  | none => exact .nil
  | other hc hc' =>
      simp only [Option.toList_some, List.filterMap_cons, List.filterMap_nil, Run.label?_other hc,
        Run.label?_other hc']
      exact .nil
  | @same c cs start start' hidden hOriginal hRespelled =>
      have hLabel (start : Nat) : Run.label? ⟨start, hidden, c :: cs⟩ =
          (Run.label? ⟨0, hidden, c :: cs⟩).map fun l => (l.1, start + Text.width (c :: cs)) := by
        unfold Run.label?
        dsimp only
        split
        · split
          · rfl
          · rename_i hWord _
            rw [hWord]
            rfl
        · rfl
      simp only [Option.toList_some, List.filterMap_cons, List.filterMap_nil, hLabel start,
        hLabel start', hOriginal, hRespelled]
      cases Run.label? ⟨0, hidden, c :: cs⟩ with
      | none => exact .nil
      | some l => exact .cons ⟨rfl, hPos⟩ .nil

/-- Reading on by a character that both texts have. -/
theorem step (h : RunAlike pos pos' word run run') (hidden : Bool) (c : Char) :
    RunAlike (pos + c.utf8Size) (pos' + c.utf8Size) (word.or (some (c = '>')))
      (some { run.getD ⟨pos, hidden, []⟩ with word := (run.getD ⟨pos, hidden, []⟩).word ++ [c] })
      (some { run'.getD ⟨pos', hidden, []⟩ with word := (run'.getD ⟨pos', hidden, []⟩).word ++ [c] }) := by
  cases h with
  | none =>
      exact .same (by simp) (by simp)
  | other hc hc' => exact .other hc hc'
  | same hPos hPos' =>
      refine .same ?_ ?_
      · rw [← hPos]
        simp [Nat.add_assoc]
      · rw [← hPos']
        simp [Nat.add_assoc]

/-- Reading on by a word with two spellings, which begins no label. -/
theorem spelled (h : RunAlike pos pos' word run run') (hOpen : word ≠ some true) (hText : Synonyms text)
    (hidden : Bool) {next next' : Nat} : RunAlike next next' (word.or (some false))
      (some { run.getD ⟨pos, hidden, []⟩ with
        word := (run.getD ⟨pos, hidden, []⟩).word ++ text .original })
      (some { run'.getD ⟨pos', hidden, []⟩ with
        word := (run'.getD ⟨pos', hidden, []⟩).word ++ text .respelled }) := by
  cases h with
  | none =>
      have hPlain (e : Edition) : ∃ c cs, text e = c :: cs ∧ c ≠ '>' := by
        obtain ⟨c, cs, hWord, _⟩ := hText.begins e
        refine ⟨c, cs, hWord, ?_⟩
        rintro rfl
        exact hText.not_foreign (k := ['>']) (by decide) e ⟨cs, hWord.symm⟩
      obtain ⟨c, cs, hWord, hc⟩ := hPlain .original
      obtain ⟨c', cs', hWord', hc'⟩ := hPlain .respelled
      rw [hWord, hWord']
      exact .other hc hc'
  | other hc hc' => exact .other hc hc'
  | @same c _ _ _ _ _ _ =>
      have hc : c ≠ '>' := fun hc => hOpen (by simp [hc])
      rw [Option.some_or, decide_eq_false hc]
      exact .other hc hc

end RunAlike

/-- A character for names stands in words. -/
theorem isNameChar_unbroken {c : Char} (h : isNameChar c = true) : isBreak c = false := by
  have hGap := (isNameChar_iff.mp h).1
  simp only [isGap, Bool.or_eq_false_iff] at hGap
  exact hGap.1.1

theorem runsFrom_step {c : Char} (hc : isNameChar c = true) (run : Option Run) (before : Option Char)
    (hidden : Bool) (pos : Nat) (cs : List Char) : runsFrom run before hidden pos (c :: cs) =
      runsFrom (some { run.getD ⟨pos, hidden, []⟩ with word := (run.getD ⟨pos, hidden, []⟩).word ++ [c] })
        (some c) hidden (pos + c.utf8Size) cs := by
  obtain ⟨_, _, _, hSlash, _⟩ := isNameChar_iff.mp hc
  have hBreak := isNameChar_unbroken hc
  have hHidden : (decide (c ≠ '\n') && (hidden || (decide (before = some '/') && decide (c = '/')))) =
      hidden := by
    simp [isNameChar_ne_newline hc, hSlash]
  rw [runsFrom]
  simp only [hBreak, hHidden]
  rfl

theorem runsFrom_word {c : Char} {w : List Char} (h : ∀ d ∈ c :: w, isNameChar d = true)
    (run : Option Run) (before : Option Char) (hidden : Bool) (pos : Nat) (cs : List Char) :
    ∃ last, last ≠ '/' ∧ runsFrom run before hidden pos (c :: w ++ cs) =
      runsFrom (some { run.getD ⟨pos, hidden, []⟩ with
        word := (run.getD ⟨pos, hidden, []⟩).word ++ c :: w })
        (some last) hidden (pos + Text.width (c :: w)) cs := by
  induction w generalizing c run before pos with
  | nil =>
      have hc := h c List.mem_cons_self
      refine ⟨c, (isNameChar_iff.mp hc).2.2.2.1, ?_⟩
      rw [List.cons_append, runsFrom_step hc]
      simp
  | cons d w ih =>
      obtain ⟨hc, hw⟩ := List.forall_mem_cons.mp h
      obtain ⟨last, hLast, hRuns⟩ := ih hw _ (some c) (pos + c.utf8Size)
      refine ⟨last, hLast, ?_⟩
      rw [List.cons_append, runsFrom_step hc, hRuns]
      simp [Nat.add_assoc]

theorem parallel_of_passed (h : ps = passed ++ rest) : Parallel ps fun e => Text.width (spell e passed) :=
  .inl ⟨passed, rest, h, fun _ => rfl⟩

/-- Both texts set the same labels. -/
theorem runs_alike {word : Option Bool} {run run' : Option Run} {before before' : Option Char}
    {hidden : Bool} (hParts : ps = passed ++ rest) (hWords : WellSpelled free rest)
    (hLabels : Unlabelled word rest)
    (hRun : RunAlike (Text.width (spell .original passed)) (Text.width (spell .respelled passed))
      word run run')
    (hBefore : before' = some '/' ↔ before = some '/') :
    List.Forall₂ (LabelAlike ps)
      ((runsFrom run before hidden (Text.width (spell .original passed)) (spell .original rest)).filterMap
        Run.label?)
      ((runsFrom run' before' hidden (Text.width (spell .respelled passed))
        (spell .respelled rest)).filterMap Run.label?) := by
  have hHere : Parallel ps (Edition.pick (Text.width (spell .original passed))
      (Text.width (spell .respelled passed))) :=
    (parallel_of_passed hParts).pick
  induction rest generalizing free passed word run run' before before' hidden with
  | nil => exact hRun.labels hHere
  | cons p rest ih =>
      obtain ⟨_, hTail⟩ := hWords.tail
      have hOn : ps = (passed ++ [p]) ++ rest := by rw [hParts, List.append_assoc, List.singleton_append]
      have hThere : Parallel ps (Edition.pick (Text.width (spell .original (passed ++ [p])))
          (Text.width (spell .respelled (passed ++ [p])))) :=
        (parallel_of_passed hOn).pick
      cases p with
      | same c =>
          have hWidth (e : Edition) : Text.width (spell e (passed ++ [.same c])) =
              Text.width (spell e passed) + c.utf8Size := by
            simp [spell_append]
          have hHidden : (decide (before' = some '/') && decide (c = '/')) =
              (decide (before = some '/') && decide (c = '/')) := by
            simp only [hBefore]
          rw [spell_same, spell_same, runsFrom, runsFrom, hHidden, ← hWidth, ← hWidth]
          rw [Unlabelled] at hLabels
          by_cases hBreak : isBreak c = true
          · rw [if_pos hBreak] at hLabels
            simp only [hBreak, if_true, List.filterMap_append]
            exact List.rel_append (hRun.labels hHere) (ih hOn hTail hLabels .none Iff.rfl hThere)
          · rw [if_neg hBreak] at hLabels
            simp only [hBreak]
            have hStep := hRun.step hidden c
            rw [← hWidth, ← hWidth] at hStep
            exact ih hOn hTail hLabels hStep Iff.rfl hThere
      | word text =>
          obtain ⟨hOpen, hLabels⟩ : word ≠ some true ∧ Unlabelled (word.or (some false)) rest := hLabels
          obtain ⟨_, hText, _⟩ : _ ∧ Synonyms text ∧ _ := hWords
          have hWord (e : Edition) (run : Option Run) (before : Option Char) :
              ∃ last, last ≠ '/' ∧
                runsFrom run before hidden (Text.width (spell e passed)) (text e ++ spell e rest) =
                  runsFrom (some { run.getD ⟨Text.width (spell e passed), hidden, []⟩ with
                    word := (run.getD ⟨Text.width (spell e passed), hidden, []⟩).word ++ text e })
                    (some last) hidden (Text.width (spell e (passed ++ [.word text]))) (spell e rest) := by
            obtain ⟨c, cs, hChars, _⟩ := hText.begins e
            obtain ⟨last, hLast, hRuns⟩ := runsFrom_word (hChars ▸ hText.named e) run before hidden
              (Text.width (spell e passed)) (spell e rest)
            refine ⟨last, hLast, ?_⟩
            simp only [spell_append, spell_word, spell_nil, List.append_nil, Text.width_append, hChars]
            exact hRuns
          obtain ⟨last, hLast, hOriginal⟩ := hWord .original run before
          obtain ⟨last', hLast', hRespelled⟩ := hWord .respelled run' before'
          rw [spell_word, spell_word, hOriginal, hRespelled]
          exact ih hOn hTail hLabels (hRun.spelled hOpen hText hidden) (by simp [hLast, hLast']) hThere

theorem lookup_alike {l l' : List (String × Nat)} (h : List.Forall₂ (LabelAlike ps) l l') (label : String) :
    (l.lookup label = none ∧ l'.lookup label = none) ∨
      ∃ pos pos', l.lookup label = some pos ∧ l'.lookup label = some pos' ∧
        Parallel ps (Edition.pick pos pos') := by
  induction h with
  | nil => exact .inl ⟨rfl, rfl⟩
  | @cons a a' l l' hFirst _ ih =>
      obtain ⟨name, pos⟩ := a
      obtain ⟨name', pos'⟩ := a'
      obtain ⟨rfl, hPos⟩ : name' = name ∧ Parallel ps (Edition.pick pos pos') := hFirst
      rw [List.lookup_cons, List.lookup_cons]
      cases label == name' with
      | true => exact .inr ⟨pos, pos', rfl, rfl, hPos⟩
      | false => exact ih

/-- A label is set at the same part of both texts or in none. -/
theorem Respelling.label? (hSpelling : Respelling ps) (name label : String) :
    ((edition name ps .original).label? label = none ∧ (edition name ps .respelled).label? label = none) ∨
      ∃ pos pos', (edition name ps .original).label? label = some pos ∧
        (edition name ps .respelled).label? label = some pos' ∧ Parallel ps (Edition.pick pos pos') :=
  lookup_alike (runs_alike (show ps = [] ++ ps from rfl) hSpelling.words hSpelling.labels .none Iff.rfl) label

/-! Headers of events. -/

/-- Where one of the texts has the header of an event, no word with two spellings belongs to it. -/
def Heads (header : List Char) : List Part → Prop
  | [] => True
  | p :: ps => (∀ e, header <+: spell e (p :: ps) → Plain ((p :: ps).take header.length)) ∧ Heads header ps

instance instDecidableHeads (header : List Char) : ∀ ps, Decidable (Heads header ps)
  | [] => inferInstanceAs (Decidable True)
  | p :: ps =>
    have := instDecidableHeads header ps
    inferInstanceAs (Decidable ((∀ e, header <+: spell e (p :: ps) →
      Plain ((p :: ps).take header.length)) ∧ _))

/-- Parts that are plain as far as a text goes begin with its characters. -/
theorem exists_same_of_plain {cs : List Char} {e : Edition} (hText : cs <+: spell e ps)
    (hPlain : Plain (ps.take cs.length)) : ∃ rest, ps = cs.map Part.same ++ rest := by
  induction cs generalizing ps with
  | nil => exact ⟨ps, rfl⟩
  | cons c cs ih =>
      cases ps with
      | nil => exact absurd hText (by simp)
      | cons p ps =>
          cases p with
          | word text => exact absurd List.mem_cons_self (hPlain text)
          | same d =>
              obtain ⟨rfl, hRest⟩ := List.cons_prefix_cons.mp hText
              obtain ⟨rest, hParts⟩ := ih hRest fun text hWord => hPlain text (List.mem_cons_of_mem _ hWord)
              exact ⟨rest, by rw [hParts, List.map_cons, List.cons_append]⟩

/-- A word is over in both texts or in none. -/
theorem WellSpelled.breaks (h : WellSpelled free ps) (e : Edition) :
    (spell e ps).head?.all isBreak = (spell .original ps).head?.all isBreak := by
  cases ps with
  | nil => rfl
  | cons p ps =>
      cases p with
      | same c => rfl
      | word text =>
          have hWord (e : Edition) : (spell e (.word text :: ps)).head?.all isBreak = false := by
            obtain ⟨c, cs, hText, hName⟩ := h.2.1.begins e
            simp [hText, isNameChar_unbroken hName]
          rw [hWord, hWord]

/-- A text begins with the header as a whole word. -/
def announces (header cs : List Char) : Bool :=
  header.isPrefixOf cs && (cs.drop header.length).head?.all isBreak

theorem headerFrom_cons (header : List Char) (before : Option Char) (hidden : Bool) (pos : Nat) (c : Char)
    (cs : List Char) : headerFrom header before hidden pos (c :: cs) =
      if before.all isBreak && !hidden && announces header (c :: cs) then some (pos + Text.width header)
      else headerFrom header (some c) (c ≠ '\n' && (hidden || (before = some '/' && c = '/')))
        (pos + c.utf8Size) cs := by
  rw [headerFrom, announces]
  simp only [Bool.and_assoc]

/-- The header follows in both texts, with the same characters, or in none. -/
theorem Heads.follows {p : Part} (hWords : WellSpelled free (p :: ps)) {header : List Char}
    (h : Heads header (p :: ps)) :
    (∃ rest, p :: ps = header.map Part.same ++ rest ∧ ∀ e, announces header (spell e (p :: ps)) = true) ∨
      ∀ e, announces header (spell e (p :: ps)) = false := by
  by_cases hSome : ∃ e, header <+: spell e (p :: ps)
  · obtain ⟨e, hHeader⟩ := hSome
    obtain ⟨rest, hParts⟩ := exists_same_of_plain hHeader (h.1 e hHeader)
    obtain ⟨_, hRest⟩ := (hParts ▸ hWords).suffix
    have hEvery (e : Edition) : announces header (spell e (p :: ps)) =
        (spell .original rest).head?.all isBreak := by
      rw [hParts, spell_append, spell_map_same, announces, List.drop_left, hRest.breaks]
      simp
    cases hOver : (spell .original rest).head?.all isBreak with
    | true => exact .inl ⟨rest, hParts, fun e => (hEvery e).trans hOver⟩
    | false => exact .inr fun e => (hEvery e).trans hOver
  · refine .inr fun e => ?_
    rw [announces, Bool.and_eq_false_iff, Bool.eq_false_iff, ne_eq, List.isPrefixOf_iff_prefix]
    exact .inl fun hHeader => hSome ⟨e, hHeader⟩

/-- No header begins inside of a word. -/
theorem headerFrom_inside {w : List Char} (h : ∀ c ∈ w, isNameChar c = true) (header : List Char)
    {before : Char} (hBefore : isNameChar before = true) (hidden : Bool) (pos : Nat) (cs : List Char) :
    ∃ last, isNameChar last = true ∧ headerFrom header (some before) hidden pos (w ++ cs) =
      headerFrom header (some last) hidden (pos + Text.width w) cs := by
  induction w generalizing before pos with
  | nil => exact ⟨before, hBefore, rfl⟩
  | cons c w ih =>
      obtain ⟨hc, hw⟩ := List.forall_mem_cons.mp h
      obtain ⟨last, hLast, hRest⟩ := ih hw hc (pos + c.utf8Size)
      have hHidden : (decide (c ≠ '\n') && (hidden || (decide (some before = some '/') &&
          decide (c = '/')))) = hidden := by
        simp [isNameChar_ne_newline hc, (isNameChar_iff.mp hc).2.2.2.1]
      refine ⟨last, hLast, ?_⟩
      rw [List.cons_append, headerFrom_cons, Option.all_some, isNameChar_unbroken hBefore, hHidden, hRest,
        Text.width_cons, Nat.add_assoc]
      simp

/-- No header begins with a word with two spellings. -/
theorem Synonyms.announces_word (h : Synonyms text) {cs : List Char} (hEnd : endsWord cs = true)
    (e : Edition) (name : List Char) : announces ('o' :: 'n' :: ' ' :: name) (text e ++ cs) = false := by
  rw [announces, Bool.and_eq_false_iff, Bool.eq_false_iff, ne_eq, List.isPrefixOf_iff_prefix]
  refine .inl fun hHeader => ?_
  cases hText : text e with
  | nil => exact h.some e hText
  | cons c w =>
      rw [hText, List.cons_append] at hHeader
      obtain ⟨rfl, hNext⟩ := List.cons_prefix_cons.mp hHeader
      cases w with
      | nil =>
          obtain ⟨more, rfl⟩ := hNext
          exact absurd hEnd (by simp [endsWord, isGap])
      | cons d w =>
          obtain ⟨rfl, -⟩ := List.cons_prefix_cons.mp hNext
          exact h.not_foreign (k := ['o', 'n']) (by decide) e ⟨w, hText.symm⟩

theorem headerFrom_word {e : Edition} (hText : Synonyms text) {cs : List Char} (name : List Char)
    (hEnd : endsWord cs = true) (before : Option Char) (hidden : Bool) (pos : Nat) :
    ∃ last, isNameChar last = true ∧
      headerFrom ('o' :: 'n' :: ' ' :: name) before hidden pos (text e ++ cs) =
        headerFrom ('o' :: 'n' :: ' ' :: name) (some last) hidden (pos + Text.width (text e)) cs := by
  have hBegins := hText.announces_word hEnd e name
  have hNamed := hText.named e
  obtain ⟨c, w, hWord, hc⟩ := hText.begins e
  rw [hWord] at hBegins hNamed ⊢
  obtain ⟨last, hLast, hRest⟩ := headerFrom_inside (List.forall_mem_cons.mp hNamed).2
    ('o' :: 'n' :: ' ' :: name) hc hidden (pos + c.utf8Size) cs
  have hHidden : (decide (c ≠ '\n') && (hidden || (decide (before = some '/') && decide (c = '/')))) =
      hidden := by
    simp [isNameChar_ne_newline hc, (isNameChar_iff.mp hc).2.2.2.1]
  refine ⟨last, hLast, ?_⟩
  rw [List.cons_append] at hBegins ⊢
  rw [headerFrom_cons, hBegins, Bool.and_false, if_neg Bool.false_ne_true, hHidden, hRest,
    Text.width_cons, Nat.add_assoc]

/-- An event begins at the same part of both texts or in none. -/
theorem headerFrom_alike {name : List Char} {before before' : Option Char} {hidden : Bool}
    (hParts : ps = passed ++ rest) (hWords : WellSpelled free rest)
    (hHeads : Heads ('o' :: 'n' :: ' ' :: name) rest) (hSlash : before' = some '/' ↔ before = some '/')
    (hBreak : before'.all isBreak = before.all isBreak) :
    (headerFrom ('o' :: 'n' :: ' ' :: name) before hidden (Text.width (spell .original passed))
          (spell .original rest) = none ∧
        headerFrom ('o' :: 'n' :: ' ' :: name) before' hidden (Text.width (spell .respelled passed))
          (spell .respelled rest) = none) ∨
      ∃ pos pos', headerFrom ('o' :: 'n' :: ' ' :: name) before hidden
          (Text.width (spell .original passed)) (spell .original rest) = some pos ∧
        headerFrom ('o' :: 'n' :: ' ' :: name) before' hidden (Text.width (spell .respelled passed))
          (spell .respelled rest) = some pos' ∧ Parallel ps (Edition.pick pos pos') := by
  induction rest generalizing free passed before before' hidden with
  | nil => exact .inl ⟨rfl, rfl⟩
  | cons p rest ih =>
      have hFollows := hHeads.follows hWords
      obtain ⟨_, hTail⟩ := hWords.tail
      have hOn : ps = (passed ++ [p]) ++ rest := by rw [hParts, List.append_assoc, List.singleton_append]
      cases p with
      | same c =>
          have hWidth (e : Edition) : Text.width (spell e (passed ++ [.same c])) =
              Text.width (spell e passed) + c.utf8Size := by
            simp [spell_append]
          have hHidden : (decide (before' = some '/') && decide (c = '/')) =
              (decide (before = some '/') && decide (c = '/')) := by
            simp only [hSlash]
          simp only [spell_same] at hFollows ⊢
          rw [headerFrom_cons, headerFrom_cons, hHidden, hBreak, ← hWidth, ← hWidth]
          have hGoes := @ih _ _ (some c) (some c)
            (c ≠ '\n' && (hidden || (before = some '/' && c = '/'))) hOn hTail hHeads.2 Iff.rfl rfl
          rcases hFollows with ⟨behind, hHeader, hBoth⟩ | hNone
          · rw [hBoth, hBoth]
            by_cases hHere : (before.all isBreak && !hidden && true) = true
            · rw [if_pos hHere, if_pos hHere]
              refine .inr ⟨_, _, rfl, rfl, .inl ⟨passed ++
                ('o' :: 'n' :: ' ' :: name).map Part.same, behind, ?_, fun e => ?_⟩⟩
              · rw [hParts, hHeader, List.append_assoc]
              · rw [spell_append, spell_map_same, Text.width_append]
                cases e <;> rfl
            · rw [if_neg hHere, if_neg hHere]
              exact hGoes
          · rw [hNone, hNone, Bool.and_false, if_neg Bool.false_ne_true, if_neg Bool.false_ne_true]
            exact hGoes
      | word text =>
          obtain ⟨_, hText, hEnd, _⟩ := hWords
          have hEnds (e : Edition) : endsWord (spell e rest) = true :=
            (hTail.akin .original e).endsWord.trans hEnd
          have hWidth (e : Edition) : Text.width (spell e (passed ++ [.word text])) =
              Text.width (spell e passed) + Text.width (text e) := by
            simp [spell_append]
          obtain ⟨last, hLast, hHeader⟩ := headerFrom_word hText name (hEnds .original)
            before hidden (Text.width (spell .original passed))
          obtain ⟨last', hLast', hHeader'⟩ := headerFrom_word hText name
            (hEnds .respelled) before' hidden (Text.width (spell .respelled passed))
          rw [spell_word, spell_word, hHeader, hHeader', ← hWidth, ← hWidth]
          refine ih hOn hTail hHeads.2 ?_ ?_
          · simp [(isNameChar_iff.mp hLast).2.2.2.1, (isNameChar_iff.mp hLast').2.2.2.1]
          · simp [isNameChar_unbroken hLast, isNameChar_unbroken hLast']

/-- An event begins at the same part of both texts or in none, if no word with two spellings belongs to
its header. -/
theorem Respelling.eventStart? (hSpelling : Respelling ps) (name : String) (event : EventName)
    (hHeads : ∀ header, header? event = some header → Heads header ps) :
    ((edition name ps .original).eventStart? event = none ∧
        (edition name ps .respelled).eventStart? event = none) ∨
      ∃ pos pos', (edition name ps .original).eventStart? event = some pos ∧
        (edition name ps .respelled).eventStart? event = some pos' ∧
        Parallel ps (Edition.pick pos pos') := by
  cases hHeader : header? event with
  | none =>
      cases event with
      | line => exact .inl ⟨rfl, rfl⟩
      | _ => cases hHeader
  | some header =>
      obtain ⟨tail, rfl⟩ : ∃ tail, header = 'o' :: 'n' :: ' ' :: tail := by
        cases event <;> cases hHeader <;> exact ⟨_, rfl⟩
      rw [eventStart?_eq_headerFrom _ hHeader, eventStart?_eq_headerFrom _ hHeader]
      exact headerFrom_alike (show ps = [] ++ ps from rfl) hSpelling.words (hHeads _ hHeader) Iff.rfl rfl

end EntityScript.Script
