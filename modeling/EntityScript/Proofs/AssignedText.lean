import EntityScript.Proofs.Lookahead
import EntityScript.Proofs.Storage

/-! Texts that go into a variable and come out again. A quoted word is assigned as it stands unless it names
a variable itself; then the text of that variable is. A reference in a quoted word gives what was
assigned. -/
namespace EntityScript

namespace Script

/-- Blanks and parentheses on one line. -/
def Gaps (g : List Char) : Prop := ∀ c ∈ g, isGap c = true ∧ c ≠ '\n'

instance (g : List Char) : Decidable (Gaps g) := List.decidableBAll _ _

/-- Text that stands in quotes and has no reference in it. -/
def Verbatim (v : List Char) : Prop := ∀ c ∈ v, isQuotable c = true ∧ c ≠ '~'

instance (v : List Char) : Decidable (Verbatim v) := List.decidableBAll _ _

/-- Text that is one word without quotes around it. -/
def Bare (w : List Char) : Prop :=
  (∀ c ∈ w, isGap c = false ∧ c ≠ '"' ∧ c ≠ '~') ∧ ¬ ['/', '/'] <:+: w

instance (w : List Char) : Decidable (Bare w) :=
  @instDecidableAnd _ _ (List.decidableBAll _ _)
    (@instDecidableNot _ (List.instDecidableIsInfixOfDecidableEq _ _))

variable {g v post cs : List Char} {c d : Char}

theorem skipGaps_gaps (hGaps : Gaps g) (lines : Bool) (pos : Nat) (cs : List Char) :
    skipGaps lines false pos (g ++ cs) = skipGaps lines false (pos + Text.width g) cs := by
  induction g generalizing pos with
  | nil => rfl
  | cons c g ih =>
      obtain ⟨⟨hGap, hNewline⟩, hRest⟩ := List.forall_mem_cons.mp hGaps
      rw [List.cons_append, skipGaps, if_neg hNewline, hGap, Bool.false_or, if_pos rfl, ih hRest,
        Text.width_cons, Nat.add_assoc]

/-- Behind gaps a word begins. -/
theorem skipGaps_stops_at (hGaps : Gaps g) (hGap : isGap c = false) (hSlash : c ≠ '/') (lines : Bool)
    (pos : Nat) :
    skipGaps lines false pos (g ++ c :: cs) = (⟨pos + Text.width g, c :: cs⟩, none) := by
  have hNewline : c ≠ '\n' := by
    rintro rfl
    exact absurd hGap (by decide)
  rw [skipGaps_gaps hGaps, skipGaps, if_neg hNewline, hGap]
  simp [hSlash]

theorem Bare.isQuotable {w : List Char} (hw : Bare w) : ∀ c ∈ w, isQuotable c = true := by
  intro c hc
  obtain ⟨hGap, hQuote, -⟩ := hw.1 c hc
  have hNewline : c ≠ '\n' := by
    rintro rfl
    exact absurd hGap (by decide)
  simp [Script.isQuotable, hQuote, hNewline]

/-- A quoted word ends at the next quote. -/
theorem quotedWord_quotable (hv : ∀ c ∈ v, isQuotable c = true) (pos : Nat) (post : List Char) :
    quotedWord pos (v ++ '"' :: post) = ⟨v, ⟨pos + Text.width v + 1, post⟩, []⟩ := by
  simp [quotedWord, quotedBody_eq, List.takeWhile_append_of_pos hv, List.dropWhile_append_of_pos hv,
    isQuotable]

/-- A quoted word is read as it stands between the quotes. -/
theorem nextWord_quoted (hGaps : Gaps g) (hv : ∀ c ∈ v, isQuotable c = true) (pos : Nat)
    (post : List Char) :
    nextWord pos (g ++ '"' :: (v ++ '"' :: post)) =
      ⟨v, ⟨pos + Text.width g + 1 + Text.width v + 1, post⟩, []⟩ := by
  rw [nextWord, skipGaps_stops_at hGaps (by decide) (by decide)]
  exact quotedWord_quotable hv _ post

/-- A word without quotes is read up to the next gap. -/
theorem bareWord_bare {w : List Char} (hw : Bare w) (hGap : isGap c = true) (pos : Nat)
    (cs : List Char) :
    bareWord pos (w ++ c :: cs) = ⟨w, ⟨pos + Text.width w, c :: cs⟩, []⟩ := by
  induction w generalizing pos with
  | nil => simp [bareWord, hGap]
  | cons d w ih =>
      obtain ⟨⟨hStays, hQuote, -⟩, hRest⟩ := List.forall_mem_cons.mp hw.1
      have hTail : Bare w := ⟨hRest, fun hRemark => hw.2 (hRemark.trans (List.suffix_cons d w).isInfix)⟩
      have hNoRemark : (decide (d = '/') && decide ((w ++ c :: cs).head? = some '/')) = false := by
        refine Bool.eq_false_iff.mpr fun hBoth => ?_
        obtain ⟨rfl, hNext⟩ : d = '/' ∧ (w ++ c :: cs).head? = some '/' := by simpa using hBoth
        cases w with
        | nil =>
            obtain rfl : c = '/' := Option.some.inj hNext
            exact absurd hGap (by decide)
        | cons e w =>
            obtain rfl : e = '/' := Option.some.inj hNext
            exact hw.2 ⟨[], w, rfl⟩
      rw [List.cons_append, bareWord, hStays, hNoRemark]
      simp [hQuote, ih hTail, Nat.add_assoc]

theorem nextWord_bare {w : List Char} (hGaps : Gaps g) (hw : Bare (d :: w)) (hSlash : d ≠ '/')
    (hGap : isGap c = true) (pos : Nat) (cs : List Char) :
    nextWord pos (g ++ (d :: w ++ c :: cs)) =
      ⟨d :: w, ⟨pos + Text.width g + Text.width (d :: w), c :: cs⟩, []⟩ := by
  obtain ⟨hStays, hQuote, -⟩ := (List.forall_mem_cons.mp hw.1).1
  have hWord := bareWord_bare hw hGap (pos + Text.width g) cs
  rw [nextWord, List.cons_append, skipGaps_stops_at hGaps hStays hSlash]
  dsimp only
  split
  · rename_i hHead
    exact absurd (List.cons.inj hHead).1 hQuote
  · exact hWord

end Script

namespace Piece

/-- Text without tildes is one part. -/
theorem split_plain {w : List Char} (hw : '~' ∉ w) (inside : Bool) (part rest : List Char) :
    split inside part (w ++ rest) = split inside (part ++ w) rest := by
  induction w generalizing part with
  | nil => simp
  | cons c w ih =>
      obtain ⟨hc, hRest⟩ := not_or.mp (mt List.mem_cons.mpr hw)
      rw [List.cons_append, split, if_neg (Ne.symm hc), ih hRest, List.append_assoc,
        List.singleton_append]

theorem parts_plain {w : List Char} (hw : '~' ∉ w) :
    parts (String.ofList w) = [.literal w] := by
  have hSplit := split_plain hw false [] []
  simpa [parts, split] using hSplit

/-- A reference between two texts. -/
theorem parts_reference {a name b : List Char} (ha : '~' ∉ a) (hName : '~' ∉ name) (hb : '~' ∉ b) :
    parts (String.ofList (a ++ '~' :: (name ++ '~' :: b))) =
      [.literal a, .reference name, .literal b] := by
  have hSplit := split_plain hb false [] []
  rw [List.append_nil] at hSplit
  simp [parts, split_plain ha, split_plain hName, split, hSplit]

end Piece

theorem Script.Holds.behind {s : Script} {pos : Nat} {a b : List Char} (h : s.Holds ⟨pos, a ++ b⟩) :
    s.Holds ⟨pos + Text.width a, b⟩ :=
  h.reaches ⟨a, rfl, rfl⟩

namespace Act

open Script (Gaps Verbatim Bare)

variable {inv : Invocation} {s : Session} {pos : Nat} {calls : List Call} {g v post cs : List Char}

/-- Reading a word that nothing is wrong with. -/
theorem rawWord_of_clean {w : List Char} {stop : Place}
    (h : Script.nextWord pos (inv.script.rest pos) = ⟨w, stop, []⟩) :
    rawWord inv ⟨s, pos, calls⟩ = .ok (String.ofList w) ⟨s, stop.pos, calls⟩ := by
  rw [rawWord, get_bind, rest_bind, h]
  rfl

theorem expand_plain {w : List Char} (hw : '~' ∉ w) (inv : Invocation) (p : Progress) :
    expand (String.ofList w) inv p = .ok (String.ofList w) p := by
  rw [expand, Piece.parts_plain hw, bind_apply]
  change EStateM.Result.ok (String.join [String.ofList w]) p = _
  simp

/-- A word with one reference. -/
theorem expand_reference {a name b : List Char} (ha : '~' ∉ a) (hName : '~' ∉ name) (hb : '~' ∉ b)
    {p q : Progress} {text : String} (h : referenceText name inv p = .ok text q) :
    expand (String.ofList (a ++ '~' :: (name ++ '~' :: b))) inv p =
      .ok (String.ofList a ++ text ++ String.ofList b) q := by
  have hParts : [Piece.literal a, .reference name, .literal b].mapM pieceText inv p =
      .ok [String.ofList a, text, String.ofList b] q := by
    rw [List.mapM_cons, bind_apply]
    change ([Piece.reference name, .literal b].mapM pieceText >>= fun texts =>
      Pure.pure (String.ofList a :: texts)) inv p = _
    rw [List.mapM_cons, bind_assoc, bind_apply, show pieceText (.reference name) inv p = _ from h]
    rfl
  rw [expand, Piece.parts_reference ha hName hb, bind_apply, hParts]
  change EStateM.Result.ok (String.join [String.ofList a, text, String.ofList b]) q = _
  simp [String.append_assoc]

/-- There are no flags before the name of a text variable. -/
theorem flags_none (hGaps : Gaps g) (hText : inv.script.Holds ⟨pos, g ++ '$' :: cs⟩) :
    flags inv ⟨s, pos, calls⟩ = .ok "" ⟨s, pos + Text.width g, calls⟩ := by
  have hRest : inv.script.rest pos = g ++ '$' :: cs := hText.rest_eq
  have hSkip : skipGaps false false inv ⟨s, pos, calls⟩ = .ok () ⟨s, pos + Text.width g, calls⟩ := by
    rw [skipGaps, get_bind, rest_bind, hRest, Script.skipGaps_stops_at hGaps (by decide) (by decide)]
    rfl
  rw [flags, bind_apply, hSkip]
  dsimp only
  rw [rest_bind, hText.behind.rest_eq]
  rfl

/-- Reading a word without quotes. -/
theorem word_bare {c d : Char} {w : List Char} (hw : Bare (d :: w)) (hSlash : d ≠ '/')
    (hGap : Script.isGap c = true) (hText : inv.script.Holds ⟨pos, d :: w ++ c :: cs⟩) :
    word inv ⟨s, pos, calls⟩ = .ok (String.ofList (d :: w)) ⟨s, pos + Text.width (d :: w), calls⟩ := by
  have hRest : inv.script.rest pos = d :: w ++ c :: cs := hText.rest_eq
  have hRead := Script.nextWord_bare (List.forall_mem_nil _) hw hSlash hGap pos cs
  rw [List.nil_append, ← hRest] at hRead
  rw [word, bind_apply, rawWord_of_clean hRead]
  exact expand_plain (fun hTilde => (hw.1 _ hTilde).2.2 rfl) _ _

/-- Reading a quoted word is reading what stands between the quotes. -/
theorem word_quoted (hGaps : Gaps g) (hv : ∀ c ∈ v, Script.isQuotable c = true)
    (hText : inv.script.Holds ⟨pos, g ++ '"' :: (v ++ '"' :: post)⟩) :
    word inv ⟨s, pos, calls⟩ =
      expand (String.ofList v) inv ⟨s, pos + Text.width g + 1 + Text.width v + 1, calls⟩ := by
  have hRest : inv.script.rest pos = g ++ '"' :: (v ++ '"' :: post) := hText.rest_eq
  have hRead := Script.nextWord_quoted hGaps hv pos post
  rw [← hRest] at hRead
  rw [word, bind_apply, rawWord_of_clean hRead]

end Act

namespace Command

open Script (Gaps Verbatim Bare)

variable {inv : Invocation} {s : Session} {pos : Nat} {calls : List Call} {g g' n v post : List Char}

/-- The global text variable of a name. -/
def textKey (n : List Char) : VarKey := ⟨.global, .text, String.ofList n⟩

theorem parse?_textKey (hn : n ≠ []) : VarKey.parse? (String.ofList ('$' :: n)) = some (textKey n) := by
  obtain ⟨c, n, rfl⟩ := List.exists_cons_of_ne_nil hn
  simp [VarKey.parse?, sigilKind?, textKey]

/-- What assigning a quoted word does, from where the word was read. -/
theorem runSet_quoted (s : Session) (calls : List Call) (hn : n ≠ []) (hBare : Bare ('$' :: n))
    (hGaps : Gaps g) (hGaps' : Gaps g') (hApart : g' ≠ []) (hv : Verbatim v)
    (hText : inv.script.Holds ⟨pos, g ++ ('$' :: n ++ (g' ++ '"' :: (v ++ '"' :: post)))⟩) :
    ∃ stop, runSet inv ⟨s, pos, calls⟩ =
      (operandValue (String.ofList v) .text >>= assign (textKey n)) inv ⟨s, stop, calls⟩ := by
  obtain ⟨c, g', rfl⟩ := List.exists_cons_of_ne_nil hApart
  have hGap := (List.forall_mem_cons.mp hGaps').1.1
  rw [runSet, Act.bind_apply, Act.flags_none hGaps hText]
  dsimp only
  rw [if_neg (by decide), if_neg (by decide), Act.bind_apply,
    Act.word_bare hBare (by decide) hGap hText.behind]
  dsimp only
  rw [Act.bind_apply, Act.word_quoted hGaps' (fun c hc => (hv c hc).1) hText.behind.behind,
    Act.expand_plain (fun hTilde => (hv _ hTilde).2 rfl)]
  dsimp only
  rw [Act.bind_apply, writable?_of_parse? (parse?_textKey hn)]
  exact ⟨_, rfl⟩

/-- In worlds where the variable holds what it holds in this one, a reference to it inside a quoted word
gives the text. -/
def Inserts (n : List Char) (text : String) (w : World) : Prop :=
  ∀ (a b g post : List Char) (inv : Invocation) (p : Progress),
    p.session.world.globals.value .text (String.ofList n) = w.globals.value .text (String.ofList n) →
    Verbatim a → Verbatim b → Gaps g →
    inv.script.Holds ⟨p.pos, g ++ '"' :: ((a ++ '~' :: ('$' :: n ++ '~' :: b)) ++ '"' :: post)⟩ →
    ∃ stop, Act.word inv p =
      .ok (String.ofList a ++ text ++ String.ofList b) { p with pos := stop }

/-- Reading a quoted word with a reference to a text variable. -/
theorem word_reference (s : Session) (calls : List Call) (hn : n ≠ []) (hBare : Bare ('$' :: n))
    {a b : List Char} (ha : Verbatim a) (hb : Verbatim b) (hGaps : Gaps g)
    (hText : inv.script.Holds ⟨pos, g ++ '"' :: ((a ++ '~' :: ('$' :: n ++ '~' :: b)) ++ '"' :: post)⟩) :
    ∃ stop, Act.word inv ⟨s, pos, calls⟩ =
      .ok (String.ofList a ++ (s.world.globals.value .text (String.ofList n)).asText ++ String.ofList b)
        ⟨s, stop, calls⟩ := by
  have hQuotable : ∀ c ∈ a ++ '~' :: ('$' :: n ++ '~' :: b), Script.isQuotable c = true := by
    intro c hc
    rcases List.mem_append.mp hc with hc | hc
    · exact (ha c hc).1
    rcases List.mem_cons.mp hc with rfl | hc
    · rfl
    rcases List.mem_append.mp hc with hc | hc
    · exact hBare.isQuotable c hc
    rcases List.mem_cons.mp hc with rfl | hc
    · rfl
    · exact (hb c hc).1
  have hReference (stop : Nat) : Act.referenceText ('$' :: n) inv ⟨s, stop, calls⟩ =
      .ok (s.world.globals.value .text (String.ofList n)).asText ⟨s, stop, calls⟩ := by
    change (Act.readVar (String.ofList ('$' :: n)) >>= fun x => pure x.asText) inv _ = _
    rw [Act.bind_apply, Act.readVar_of_parse? (parse?_textKey hn)]
    rfl
  rw [Act.word_quoted hGaps hQuotable hText, Act.expand_reference (fun hTilde => (ha _ hTilde).2 rfl)
    (fun hTilde => (hBare.1 _ hTilde).2.2 rfl) (fun hTilde => (hb _ hTilde).2 rfl) (hReference _)]
  exact ⟨_, rfl⟩

theorem inserts_of_value (hn : n ≠ []) (hBare : Bare ('$' :: n)) {w : World} {text : String}
    (h : w.globals.value .text (String.ofList n) = .text text) : Inserts n text w := by
  intro a b g post inv ⟨s, pos, calls⟩ hSame ha hb hGaps hText
  obtain ⟨stop, hWord⟩ := word_reference s calls hn hBare ha hb hGaps hText
  rw [hSame, h] at hWord
  exact ⟨stop, hWord⟩

/-- Assigning a text in quotes to a variable, and reading the variable in a quoted word. A text that is no
reference comes out as it went in. One that names a variable, stored or of the system, stands for it: what
comes out is the text of the value that the variable had, and where reading that halts, nothing is
assigned. -/
theorem quoted_text_survives {p : Progress} (hn : n ≠ []) (hBare : Bare ('$' :: n)) (hGaps : Gaps g)
    (hGaps' : Gaps g') (hApart : g' ≠ []) (hv : Verbatim v)
    (hText : inv.script.Holds ⟨p.pos, g ++ ('$' :: n ++ (g' ++ '"' :: (v ++ '"' :: post)))⟩) :
    (isReference (String.ofList v) = false → ∃ q, runSet inv p = .ok .success q ∧
      Inserts n (String.ofList v) q.session.world) ∧
    (isReference (String.ofList v) = true → ∃ stop,
      match Act.readVar (String.ofList v) inv { p with pos := stop } with
      | .ok x _ => ∃ q, runSet inv p = .ok .success q ∧ Inserts n x.asText q.session.world
      | .error halt q => runSet inv p = .error halt q) := by
  obtain ⟨s, pos, calls⟩ := p
  obtain ⟨stop, hRun⟩ := runSet_quoted s calls hn hBare hGaps hGaps' hApart hv hText
  -- Whatever is assigned is what a reference gives from then on.
  have hAssign (x : Value) (p : Progress) : ∃ q, assign (textKey n) x inv p = .ok .success q ∧
      Inserts n x.asText q.session.world := by
    refine ⟨_, assign_eq rfl x, inserts_of_value hn hBare ?_⟩
    exact Variables.value_setKey_self _ (textKey n) _
  constructor
  · intro hPlain
    have hOperand : operandValue (String.ofList v) .text inv ⟨s, stop, calls⟩ =
        .ok (.text (String.ofList v)) ⟨s, stop, calls⟩ := by
      rw [operandValue, hPlain]
      rfl
    rw [hRun, Act.bind_apply, hOperand]
    exact hAssign _ _
  · intro hReference
    have hOperand : operandValue (String.ofList v) .text = Act.readVar (String.ofList v) := by
      rw [operandValue, if_pos hReference]
    refine ⟨stop, ?_⟩
    rw [hRun, Act.bind_apply, hOperand]
    cases Act.readVar (String.ofList v) inv ⟨s, stop, calls⟩ with
    | ok x q => exact hAssign x q
    | error halt q => rfl

/-- The words behind a command. -/
def argumentsOf (text : String) : Invocation :=
  { script := ⟨"words", text.toList⟩, entity := ⟨0⟩, event := .fixed .init }

/-- The first of them, in a session that just began. -/
def firstArgument : Progress := ⟨⟨World.ofConfig {}, .silent, #[]⟩, 0, []⟩

/-- A greeting comes out as it went in. -/
theorem quoted_text_survives_greeting :
    ∃ q stop, runSet (argumentsOf " $n \"hello\" \"say ~$n~!\"") firstArgument = .ok .success q ∧
      Act.word (argumentsOf " $n \"hello\" \"say ~$n~!\"") { q with pos := 11 } =
        .ok "say hello!" { q with pos := stop } := by
  obtain ⟨hPlain, -⟩ := quoted_text_survives (p := firstArgument) (n := ['n']) (v := "hello".toList)
    (by decide) (by decide) (show Gaps [' '] by decide) (show Gaps [' '] by decide) (by decide) (by decide)
    (show (argumentsOf " $n \"hello\" \"say ~$n~!\"").script.Holds
      ⟨0, [' '] ++ ('$' :: ['n'] ++ ([' '] ++ '"' :: ("hello".toList ++ '"' :: " \"say ~$n~!\"".toList)))⟩
      from rfl)
  obtain ⟨q, hRun, hInserts⟩ := hPlain (by decide)
  obtain ⟨stop, hWord⟩ := hInserts "say ".toList ['!'] [' '] []
    (argumentsOf " $n \"hello\" \"say ~$n~!\"") { q with pos := 11 } rfl (by decide) (by decide)
    (by decide) rfl
  exact ⟨q, stop, hRun, hWord⟩

/-- A price is lost, because it is spelled like the name of a variable. -/
theorem quoted_price_lost :
    ¬ ∀ (n v g g' post : List Char) (inv : Invocation) (p : Progress),
      n ≠ [] → Bare ('$' :: n) → Gaps g → Gaps g' → g' ≠ [] → Verbatim v →
      inv.script.Holds ⟨p.pos, g ++ ('$' :: n ++ (g' ++ '"' :: (v ++ '"' :: post)))⟩ →
      ∃ q, runSet inv p = .ok .success q ∧ Inserts n (String.ofList v) q.session.world := by
  intro hAlways
  have hHolds : (argumentsOf " $n \"$5\" \"~$n~\"").script.Holds ⟨firstArgument.pos,
      [' '] ++ ('$' :: ['n'] ++ ([' '] ++ '"' :: ("$5".toList ++ '"' :: " \"~$n~\"".toList)))⟩ := rfl
  obtain ⟨q, hRun, hInserts⟩ := hAlways _ _ _ _ _ _ _ (by decide) (by decide) (by decide) (by decide)
    (by decide) (by decide) hHolds
  -- What is assigned is the text of a variable that was never written.
  obtain ⟨stop, hSet⟩ := runSet_quoted firstArgument.session [] (by decide) (by decide) (by decide)
    (by decide) (by decide) (by decide) hHolds
  have hPrice : VarKey.parse? (String.ofList "$5".toList) = some (textKey ['5']) := parse?_textKey (by decide)
  rw [Act.bind_apply, operandValue_of_parse? hPrice] at hSet
  dsimp only at hSet
  rw [assign_eq rfl] at hSet
  obtain ⟨-, hState⟩ := EStateM.Result.ok.inj (hRun.symm.trans hSet)
  have hEmpty : q.session.world.globals.value .text (String.ofList ['n']) = .text "" := by
    rw [hState]
    exact Variables.value_setKey_self _ (textKey ['n']) _
  have hThere : (argumentsOf " $n \"$5\" \"~$n~\"").script.Holds
      ⟨8, [' '] ++ '"' :: (([] ++ '~' :: ('$' :: ['n'] ++ '~' :: [])) ++ '"' :: [])⟩ := rfl
  obtain ⟨stop, hWord⟩ := hInserts [] [] [' '] [] _ { q with pos := 8 } rfl (by decide) (by decide)
    (by decide) hThere
  obtain ⟨stop', hRead⟩ := word_reference q.session q.calls (by decide) (by decide) (by decide)
    (by decide) (by decide) hThere
  have hTexts := (EStateM.Result.ok.inj (hWord.symm.trans hRead)).1
  rw [hEmpty] at hTexts
  exact absurd hTexts (by decide)

end Command

end EntityScript
