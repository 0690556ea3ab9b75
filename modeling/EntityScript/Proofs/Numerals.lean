import EntityScript.Decimal.Numeral
import EntityScript.Proofs.EventNames

/-! Numerals and their two readers. One reads the longest numeral that a text begins with, behind blanks; the
other a whole text, which may also be the name of an infinity or of not-a-number. The grammar of either is
stated apart from them, and a whole numeral is read alike by both. -/
namespace EntityScript.Decimal

variable {c : Char} {cs t rest sg m w f x name ds : List Char} {n n' : Numeral} {negative : Bool} {e : Int}
  {s : String} {y : Float}

/-! What a numeral is made of. -/

/-- A sign, or none, and whether it is a minus. -/
inductive Signs : List Char → Bool → Prop where
  | none : Signs [] false
  | plus : Signs ['+'] false
  | minus : Signs ['-'] true

/-- Decimal digits, at least one. -/
structure Digits (ds : List Char) : Prop where
  some : ds ≠ []
  all : ∀ d ∈ ds, d.isDigit = true

/-- Digits, or digits with a point before, behind or among them, and the digits on either side of it. -/
inductive Mantissa : List Char → List Char → List Char → Prop where
  | integer {ds : List Char} (hDigits : Digits ds) : Mantissa ds ds []
  | pointed {ds es : List Char} (hDigits : Digits (ds ++ es)) : Mantissa (ds ++ '.' :: es) ds es

/-- A power of ten, or none, and its exponent. -/
inductive Power : List Char → Int → Prop where
  | none : Power [] 0
  | ten {mark : Char} {sg ds : List Char} {negative : Bool} (hMark : mark = 'e' ∨ mark = 'E')
      (hSign : Signs sg negative) (hDigits : Digits ds) :
      Power (mark :: (sg ++ ds))
        (if negative then -(Text.digitsValue ds : Int) else Text.digitsValue ds)

/-- The text is a sign, a mantissa and a power of ten, and spells the numeral. -/
inductive Numeral.Spelled : List Char → Numeral → Prop where
  | parts {n : Numeral} {sg m x : List Char} (hSign : Signs sg n.negative)
      (hMantissa : Mantissa m n.whole n.fraction) (hPower : Power x n.exponent) :
      Spelled (sg ++ (m ++ x)) n

/-- The text names an infinity or not-a-number, behind a sign or none, in letters of either case. -/
inductive NonFinite : List Char → Float → Prop where
  | infinity {sg name : List Char} {negative : Bool} (hSign : Signs sg negative)
      (hName : lowerLetters name = "inf".toList ∨ lowerLetters name = "infinity".toList) :
      NonFinite (sg ++ name) (if negative then -(1 / 0) else 1 / 0)
  | nan {sg name : List Char} {negative : Bool} (hSign : Signs sg negative)
      (hName : lowerLetters name = "nan".toList) : NonFinite (sg ++ name) (0 / 0)

/-- `t` is the longest numeral that the text begins with. -/
structure Numeral.Longest (cs t : List Char) (n : Numeral) : Prop where
  front : t <+: cs
  spelled : n.Spelled t
  most : ∀ t' n', t' <+: cs → Numeral.Spelled t' n' → t'.length ≤ t.length

/-! Reading on behind a part takes the whole part, and more only if the text goes on. -/

theorem isDigit_ne (h : c.isDigit = true) : c ≠ '-' ∧ c ≠ '+' ∧ c ≠ '.' := by
  refine ⟨?_, ?_, ?_⟩ <;> · rintro rfl; revert h; decide

theorem splitSign_bare (h : ∀ c ∈ cs.head?, c ≠ '-' ∧ c ≠ '+') : splitSign cs = (false, cs) := by
  unfold splitSign
  split
  · exact absurd rfl (h _ rfl).1
  · exact absurd rfl (h _ rfl).2
  · rfl

theorem Signs.splitSign (h : Signs sg negative) (hBare : ∀ c ∈ cs.head?, c ≠ '-' ∧ c ≠ '+') :
    splitSign (sg ++ cs) = (negative, cs) := by
  cases h with
  | none => exact splitSign_bare hBare
  | plus => rfl
  | minus => rfl

theorem exists_sign (cs : List Char) : ∃ sg, cs = sg ++ (splitSign cs).2 ∧ Signs sg (splitSign cs).1 := by
  unfold splitSign
  split
  · exact ⟨['-'], rfl, .minus⟩
  · exact ⟨['+'], rfl, .plus⟩
  · exact ⟨[], rfl, .none⟩

theorem Digits.head (h : Digits ds) (rest : List Char) :
    ∀ c ∈ (ds ++ rest).head?, c.isDigit = true := by
  obtain ⟨d, others, rfl⟩ := List.exists_cons_of_ne_nil h.some
  intro c hc
  obtain rfl : d = c := Option.some.inj hc
  exact h.all _ List.mem_cons_self

theorem splitFraction_pointless (h : ∀ c ∈ cs.head?, c ≠ '.') : splitFraction cs = ([], cs) := by
  unfold splitFraction
  split
  · exact absurd rfl (h _ rfl)
  · rfl

theorem splitFraction_suffix (cs : List Char) : (splitFraction cs).2 <:+ cs := by
  unfold splitFraction
  split
  · exact (List.dropWhile_suffix _).trans (List.suffix_cons _ _)
  · exact List.suffix_rfl

/-- A power of ten is split off whole, with the digits that follow it. -/
theorem Power.splitExponent (h : Power x e) (hSome : x ≠ []) (rest : List Char) :
    ∃ e', splitExponent (x ++ rest) = (e', rest.dropWhile Char.isDigit) ∧ (rest = [] → e' = e) := by
  cases h with
  | none => exact absurd rfl hSome
  | @ten mark sg ds negative hMark hSign hDigits =>
      have hBehind : Decimal.splitSign (sg ++ (ds ++ rest)) = (negative, ds ++ rest) :=
        hSign.splitSign fun c hc => ⟨(isDigit_ne (hDigits.head rest c hc)).1,
          (isDigit_ne (hDigits.head rest c hc)).2.1⟩
      have hTaken : (ds ++ rest).takeWhile Char.isDigit = ds ++ rest.takeWhile Char.isDigit :=
        List.takeWhile_append_of_pos hDigits.all
      have hLeft : (ds ++ rest).dropWhile Char.isDigit = rest.dropWhile Char.isDigit :=
        List.dropWhile_append_of_pos hDigits.all
      have hSomeTaken : (ds ++ rest.takeWhile Char.isDigit).isEmpty = false := by
        simp [hDigits.some]
      have hMarked : (mark = 'e' || mark = 'E') = true := by simpa using hMark
      rw [List.cons_append, List.append_assoc, Decimal.splitExponent, if_pos hMarked, hBehind]
      simp only [hTaken, hLeft, hSomeTaken, Bool.false_eq_true, if_false]
      refine ⟨_, rfl, fun hNone => ?_⟩
      rw [hNone, List.takeWhile_nil, List.append_nil]

theorem exists_power (cs : List Char) :
    ∃ x, cs = x ++ (splitExponent cs).2 ∧ Power x (splitExponent cs).1 := by
  cases cs with
  | nil => exact ⟨[], rfl, .none⟩
  | cons c cs =>
      rw [splitExponent]
      split
      · rename_i hMark
        obtain ⟨sg, hText, hSign⟩ := exists_sign cs
        generalize splitSign cs = split at hText hSign
        obtain ⟨negative, digits⟩ := split
        dsimp only at hText hSign ⊢
        split
        · exact ⟨[], rfl, .none⟩
        · rename_i hSome
          have hDigits : Digits (digits.takeWhile Char.isDigit) :=
            ⟨by simpa using hSome, List.all_eq_true.mp List.all_takeWhile⟩
          refine ⟨c :: (sg ++ digits.takeWhile Char.isDigit), ?_, .ten (by simpa using hMark) hSign hDigits⟩
          rw [List.cons_append, List.append_assoc, List.takeWhile_append_dropWhile, ← hText]
      · exact ⟨[], rfl, .none⟩

theorem splitExponent_suffix (cs : List Char) : (splitExponent cs).2 <:+ cs := by
  obtain ⟨x, hText, -⟩ := exists_power cs
  exact ⟨x, hText.symm⟩

/-- A power of ten, or what stands in the place of one, begins with no digit and no point. -/
theorem Power.head (h : Power x e) (hSome : x ≠ []) (rest : List Char) :
    ∀ c ∈ (x ++ rest).head?, c.isDigit = false ∧ c ≠ '.' := by
  cases h with
  | none => exact absurd rfl hSome
  | ten hMark =>
      rintro c ⟨⟩
      rcases hMark with rfl | rfl <;> decide

/-- The digits and the point of a mantissa are split off whole. They are split off alone if neither a digit nor
a point follows. -/
theorem Mantissa.split (h : Mantissa m w f) (rest : List Char) :
    ∃ w' f' left, (m ++ rest).takeWhile Char.isDigit = w' ∧
      splitFraction ((m ++ rest).dropWhile Char.isDigit) = (f', left) ∧
      (w'.isEmpty && f'.isEmpty) = false ∧ left <:+ rest ∧
      ((∀ c ∈ rest.head?, c.isDigit = false ∧ c ≠ '.') → w' = w ∧ f' = f ∧ left = rest) := by
  have hClear (h : ∀ c ∈ rest.head?, c.isDigit = false ∧ c ≠ '.') :
      rest.takeWhile Char.isDigit = [] ∧ rest.dropWhile Char.isDigit = rest := by
    cases rest with
    | nil => exact ⟨rfl, rfl⟩
    | cons c rest => simp [(h c rfl).1]
  cases h with
  | integer hDigits =>
      rw [List.takeWhile_append_of_pos hDigits.all, List.dropWhile_append_of_pos hDigits.all]
      refine ⟨_, (splitFraction _).1, (splitFraction _).2, rfl, rfl, by simp [hDigits.some],
        (splitFraction_suffix _).trans (List.dropWhile_suffix _), fun hEnds => ?_⟩
      obtain ⟨hTaken, hLeft⟩ := hClear hEnds
      rw [hTaken, hLeft, splitFraction_pointless fun c hc => (hEnds c hc).2, List.append_nil]
      exact ⟨rfl, rfl, rfl⟩
  | @pointed ds es hDigits =>
      have hWhole : ∀ d ∈ w, d.isDigit = true := fun d hd => hDigits.all d (List.mem_append_left _ hd)
      have hFraction : ∀ d ∈ f, d.isDigit = true := fun d hd => hDigits.all d (List.mem_append_right _ hd)
      rw [List.append_assoc, List.takeWhile_append_of_pos hWhole, List.dropWhile_append_of_pos hWhole,
        List.cons_append, List.takeWhile_cons_of_neg (by decide), List.dropWhile_cons_of_neg (by decide),
        splitFraction, List.takeWhile_append_of_pos hFraction, List.dropWhile_append_of_pos hFraction]
      refine ⟨_, _, _, rfl, rfl, ?_, List.dropWhile_suffix _, fun hEnds => ?_⟩
      · have hSome := hDigits.some
        cases w with
        | nil => simp [show f ≠ [] from hSome]
        | cons d w => rfl
      · obtain ⟨hTaken, hLeft⟩ := hClear hEnds
        rw [hTaken, hLeft, List.append_nil, List.append_nil]
        exact ⟨rfl, rfl, rfl⟩

theorem Mantissa.head (h : Mantissa m w f) (rest : List Char) :
    ∀ c ∈ (m ++ rest).head?, c = '.' ∨ c.isDigit = true := by
  cases h with
  | integer hDigits => exact fun c hc => .inr (hDigits.head rest c hc)
  | pointed hDigits =>
      cases w with
      | nil => exact fun c hc => .inl (Option.some.inj hc).symm
      | cons d w =>
          rintro _ ⟨⟩
          exact .inr (hDigits.all d List.mem_cons_self)

theorem Mantissa.bare (h : Mantissa m w f) (rest : List Char) :
    ∀ c ∈ (m ++ rest).head?, c ≠ '-' ∧ c ≠ '+' := by
  intro c hc
  rcases h.head rest c hc with rfl | hDigit
  · decide
  · exact ⟨(isDigit_ne hDigit).1, (isDigit_ne hDigit).2.1⟩

theorem Numeral.leading?_eq (hSign : Signs sg negative) (hBare : ∀ c ∈ cs.head?, c ≠ '-' ∧ c ≠ '+') :
    leading? (sg ++ cs) =
      let (fraction, rest) := splitFraction (cs.dropWhile Char.isDigit)
      if (cs.takeWhile Char.isDigit).isEmpty && fraction.isEmpty then none
      else
        let (exponent, rest) := splitExponent rest
        some (⟨negative, cs.takeWhile Char.isDigit, fraction, exponent⟩, rest) := by
  rw [leading?, hSign.splitSign hBare]

/-- A numeral in front of a text is read, and with it what makes it longer. -/
theorem Numeral.Spelled.leading? (h : n.Spelled t) (rest : List Char) :
    ∃ n' left, leading? (t ++ rest) = some (n', left) ∧ left <:+ rest ∧ (rest = [] → n' = n) := by
  cases h with
  | @parts _ sg m x hSign hMantissa hPower =>
      obtain ⟨w, f, left, hWhole, hFraction, hSome, hLeft, hAlone⟩ := hMantissa.split (x ++ rest)
      have hRead : Numeral.leading? (sg ++ (m ++ (x ++ rest))) =
          some (⟨n.negative, w, f, (splitExponent left).1⟩, (splitExponent left).2) := by
        rw [Numeral.leading?_eq hSign (hMantissa.bare _), hFraction, hWhole]
        simp only [hSome, Bool.false_eq_true, if_false]
      rw [List.append_assoc, List.append_assoc, hRead]
      refine ⟨_, _, rfl, ?_⟩
      by_cases hPlain : x = []
      · -- Without a power of ten the digits may go on, and one may follow behind them.
        subst hPlain
        refine ⟨(splitExponent_suffix left).trans hLeft, fun hNone => ?_⟩
        subst hNone
        obtain ⟨rfl, rfl, rfl⟩ := hAlone nofun
        have hZero : n.exponent = 0 := by
          generalize n.exponent = e at hPower
          cases hPower
          rfl
        exact (congrArg (Numeral.mk n.negative n.whole n.fraction) hZero).symm
      · obtain ⟨rfl, rfl, rfl⟩ := hAlone (hPower.head hPlain rest)
        obtain ⟨exponent, hExponent, hSame⟩ := hPower.splitExponent hPlain rest
        rw [hExponent]
        exact ⟨List.dropWhile_suffix _, fun hNone => by rw [hSame hNone]⟩

theorem exists_mantissa (h : ¬ ((cs.takeWhile Char.isDigit).isEmpty &&
      (splitFraction (cs.dropWhile Char.isDigit)).1.isEmpty) = true) :
    ∃ m, cs = m ++ (splitFraction (cs.dropWhile Char.isDigit)).2 ∧
      Mantissa m (cs.takeWhile Char.isDigit) (splitFraction (cs.dropWhile Char.isDigit)).1 := by
  have hText : cs = cs.takeWhile Char.isDigit ++ cs.dropWhile Char.isDigit :=
    (List.takeWhile_append_dropWhile ..).symm
  have hWhole : ∀ d ∈ cs.takeWhile Char.isDigit, d.isDigit = true := List.all_eq_true.mp List.all_takeWhile
  generalize cs.takeWhile Char.isDigit = w at h hText hWhole ⊢
  generalize cs.dropWhile Char.isDigit = left at h hText ⊢
  subst hText
  by_cases hPoint : ∃ es, left = '.' :: es
  · obtain ⟨es, rfl⟩ := hPoint
    rw [splitFraction] at h ⊢
    have hFraction : ∀ d ∈ es.takeWhile Char.isDigit, d.isDigit = true :=
      List.all_eq_true.mp List.all_takeWhile
    refine ⟨w ++ '.' :: es.takeWhile Char.isDigit, ?_, .pointed ⟨?_, ?_⟩⟩
    · rw [List.append_assoc, List.cons_append, List.takeWhile_append_dropWhile]
    · simpa using h
    · intro d hd
      rcases List.mem_append.mp hd with hd | hd
      · exact hWhole d hd
      · exact hFraction d hd
  · have hPlain : splitFraction left = ([], left) := splitFraction_pointless fun c hc hPointed =>
      hPoint (List.head?_eq_some_iff.mp (hPointed ▸ hc))
    rw [hPlain] at h ⊢
    refine ⟨w, rfl, .integer ⟨?_, hWhole⟩⟩
    rintro rfl
    exact h rfl

/-- What is read spells the numeral. -/
theorem Numeral.spelled_of_leading? (h : leading? cs = some (n, rest)) :
    ∃ t, cs = t ++ rest ∧ n.Spelled t := by
  obtain ⟨sg, hText, hSign⟩ := exists_sign cs
  rw [leading?] at h
  generalize splitSign cs = split at h hText hSign
  obtain ⟨negative, unsigned⟩ := split
  dsimp only at h hText hSign
  split at h
  · cases h
  · rename_i hSome
    obtain ⟨m, hUnsigned, hMantissa⟩ := exists_mantissa hSome
    obtain ⟨x, hLeft, hPower⟩ := exists_power (splitFraction (unsigned.dropWhile Char.isDigit)).2
    cases h
    refine ⟨sg ++ (m ++ x), ?_, .parts hSign hMantissa hPower⟩
    rw [hText, List.append_assoc, List.append_assoc, ← hLeft, ← hUnsigned]

/-- A text spells no more than one numeral. -/
theorem Numeral.Spelled.unique (h : n.Spelled t) (h' : n'.Spelled t) : n = n' := by
  obtain ⟨m, _, hRead, -, hSame⟩ := h.leading? []
  obtain ⟨m', _, hRead', -, hSame'⟩ := h'.leading? []
  obtain rfl : m = m' := congrArg Prod.fst (Option.some.inj (hRead.symm.trans hRead'))
  exact (hSame rfl).symm.trans (hSame' rfl)

/-- What is read is the longest numeral that the text begins with. -/
theorem Numeral.leading?_eq_some_iff :
    leading? cs = some (n, rest) ↔ ∃ t, cs = t ++ rest ∧ n.Longest cs t := by
  constructor
  · intro h
    obtain ⟨t, rfl, hSpelled⟩ := spelled_of_leading? h
    refine ⟨t, rfl, List.prefix_append .., hSpelled, ?_⟩
    rintro t' n' ⟨rest', hText⟩ hOther
    obtain ⟨_, left, hRead, hLeft, -⟩ := hOther.leading? rest'
    rw [hText, h] at hRead
    cases hRead
    have hLength := congrArg List.length hText
    have hLess := hLeft.length_le
    simp only [List.length_append] at hLength
    omega
  · -- What is read is a numeral as well, and reading stops nowhere before the end of the longest one.
    rintro ⟨t, rfl, hLongest⟩
    obtain ⟨n', left, hRead, hLeft, -⟩ := hLongest.spelled.leading? rest
    obtain ⟨t', hText, hSpelled⟩ := spelled_of_leading? hRead
    have hMost := hLongest.most t' n' ⟨left, hText.symm⟩ hSpelled
    have hLength := congrArg List.length hText
    simp only [List.length_append] at hLength
    have hLess := hLeft.length_le
    obtain rfl : left = rest := hLeft.eq_of_length (by omega)
    obtain rfl : t = t' := List.append_cancel_right hText
    rw [hRead, hSpelled.unique hLongest.spelled]

/-- Nothing is read where no numeral is in front. -/
theorem Numeral.leading?_eq_none_iff :
    leading? cs = none ↔ ∀ t n, t <+: cs → ¬ Numeral.Spelled t n := by
  constructor
  · rintro hNone t n ⟨rest, rfl⟩ hSpelled
    obtain ⟨_, _, hRead, -⟩ := hSpelled.leading? rest
    rw [hNone] at hRead
    cases hRead
  · intro hNone
    refine Option.eq_none_iff_forall_ne_some.mpr fun ⟨n, rest⟩ hRead => ?_
    obtain ⟨t, rfl, hSpelled⟩ := spelled_of_leading? hRead
    exact hNone t n (List.prefix_append ..) hSpelled

/-- A whole numeral is read whole. -/
theorem Numeral.leading?_whole_iff : leading? cs = some (n, []) ↔ n.Spelled cs := by
  constructor
  · intro h
    obtain ⟨t, hText, hSpelled⟩ := spelled_of_leading? h
    rw [List.append_nil] at hText
    exact hText ▸ hSpelled
  · intro h
    exact leading?_eq_some_iff.mpr ⟨cs, (List.append_nil cs).symm, List.prefix_rfl, h,
      fun _ _ hFront _ => hFront.length_le⟩

/-! The names of infinities and of not-a-number. No numeral is in front of them. -/

/-- The letters that they begin with. -/
def nameLetters : List Char := ['i', 'I', 'n', 'N']

theorem mem_nameLetters (h : c.toLower = 'i' ∨ c.toLower = 'n') : c ∈ nameLetters := by
  have hNumber (d : Char) (hLower : c.toLower = d) : c = d ∨ c.toNat + 32 = d.toNat := by
    unfold Char.toLower at hLower
    split at hLower
    · rename_i hCapital
      have hHigh : c.val.toNat ≤ 90 := UInt32.le_iff_toNat_le.mp hCapital.2
      have hSum : (c.val + 32).toNat = d.toNat := congrArg Char.toNat hLower
      have hGap : (32 : UInt32).toNat = 32 := rfl
      rw [UInt32.toNat_add, hGap, Nat.mod_eq_of_lt (by omega)] at hSum
      exact .inr hSum
    · exact .inl hLower
  have hCapital {d : Char} (n : Char) (hd : c.toNat + 32 = d.toNat) (hn : n.toNat + 32 = d.toNat) : c = n :=
    Char.toNat_inj.mp (by omega)
  rcases h with h | h <;> rcases hNumber _ h with rfl | hSum
  · decide
  · rw [hCapital 'I' hSum rfl]
    decide
  · decide
  · rw [hCapital 'N' hSum rfl]
    decide

theorem head_of_lowerLetters {d : Char} {others : List Char} (h : lowerLetters name = d :: others)
    (hLetter : d = 'i' ∨ d = 'n') : ∀ c ∈ name.head?, c ∈ nameLetters := by
  cases name with
  | nil => cases h
  | cons c name =>
      obtain rfl : c.toLower = d := (List.cons.inj h).1
      rintro _ ⟨⟩
      exact mem_nameLetters hLetter

theorem head_of_infinity (h : lowerLetters name = "inf".toList ∨ lowerLetters name = "infinity".toList) :
    ∀ c ∈ name.head?, c ∈ nameLetters := by
  rcases h with h | h <;> exact head_of_lowerLetters h (.inl rfl)

/-- A name stands behind a sign or none, and begins with a letter. -/
theorem NonFinite.parts (h : NonFinite cs y) :
    ∃ sg negative name, cs = sg ++ name ∧ Signs sg negative ∧
      ∀ c ∈ name.head?, c ∈ nameLetters := by
  cases h with
  | infinity hSign hName => exact ⟨_, _, _, rfl, hSign, head_of_infinity hName⟩
  | nan hSign hName => exact ⟨_, _, _, rfl, hSign, head_of_lowerLetters hName (.inr rfl)⟩

/-- Such a letter is no part of a numeral, nor a blank. -/
theorem not_of_letter (h : c ∈ nameLetters) :
    (c ≠ '-' ∧ c ≠ '+') ∧ c ≠ '.' ∧ c.isDigit = false ∧ Text.isBlank c = false := by
  simp only [nameLetters, List.mem_cons, List.not_mem_nil, or_false] at h
  rcases h with rfl | rfl | rfl | rfl <;> decide

theorem bare_of_letter (h : ∀ c ∈ cs.head?, c ∈ nameLetters) :
    (∀ c ∈ cs.head?, c ≠ '-' ∧ c ≠ '+') ∧ cs.takeWhile Char.isDigit = [] ∧
      cs.dropWhile Char.isDigit = cs ∧ splitFraction cs = ([], cs) := by
  refine ⟨fun c hc => (not_of_letter (h c hc)).1, ?_, ?_,
    splitFraction_pointless fun c hc => (not_of_letter (h c hc)).2.1⟩
  all_goals
    cases cs with
    | nil => rfl
    | cons c cs => simp [(not_of_letter (h c rfl)).2.2.1]

theorem NonFinite.leading?_eq_none (h : NonFinite cs y) : Numeral.leading? cs = none := by
  obtain ⟨sg, negative, name, rfl, hSign, hLetter⟩ := h.parts
  obtain ⟨hBare, hWhole, hLeft, hFraction⟩ := bare_of_letter hLetter
  rw [Numeral.leading?_eq hSign hBare, hWhole, hLeft, hFraction]
  rfl

theorem NonFinite.ne_zero (h : NonFinite cs y) : y ≠ 0 := by
  cases h with
  | @infinity _ _ negative => cases negative <;> decide
  | nan => decide

/-- A text without a numeral in front is compared with the names. -/
theorem wholeNumber?_eq (hNone : Numeral.leading? s.toList = none)
    (hSplit : splitSign s.toList = (negative, name)) :
    wholeNumber? s =
      if lowerLetters name = "inf".toList || lowerLetters name = "infinity".toList then
        some (if negative then -(1 / 0) else 1 / 0)
      else if lowerLetters name = "nan".toList then some (0 / 0)
      else none := by
  rw [wholeNumber?, hNone, hSplit]

theorem NonFinite.wholeNumber? (h : NonFinite s.toList y) : wholeNumber? s = some y := by
  have hNone := h.leading?_eq_none
  generalize hCs : s.toList = cs at h
  cases h with
  | @infinity sg name negative hSign hName =>
      have hNamed : (lowerLetters name = "inf".toList || lowerLetters name = "infinity".toList) = true := by
        rw [Bool.or_eq_true, decide_eq_true_eq, decide_eq_true_eq]
        exact hName
      have hSplit := hSign.splitSign (bare_of_letter (head_of_infinity hName)).1
      rw [wholeNumber?_eq hNone (hCs ▸ hSplit), if_pos hNamed]
  | @nan sg name negative hSign hName =>
      have hLetter := head_of_lowerLetters hName (.inr rfl)
      have hOther : ¬ (lowerLetters name = "inf".toList || lowerLetters name = "infinity".toList) = true := by
        rw [hName]
        decide
      have hSplit := hSign.splitSign (bare_of_letter hLetter).1
      rw [wholeNumber?_eq hNone (hCs ▸ hSplit), if_neg hOther, if_pos hName]

/-- The texts that are numbers as a whole, and what they are. -/
theorem wholeNumber?_eq_some_iff :
    wholeNumber? s = some y ↔ (∃ n : Numeral, n.Spelled s.toList ∧ y = n.toFloat) ∨ NonFinite s.toList y := by
  constructor
  · intro h
    cases hRead : Numeral.leading? s.toList with
    | none =>
        obtain ⟨sg, hText, hSign⟩ := exists_sign s.toList
        generalize hSplit : splitSign s.toList = split at hText hSign
        obtain ⟨negative, name⟩ := split
        rw [wholeNumber?_eq hRead hSplit] at h
        rw [hText]
        right
        split at h
        · rename_i hName
          cases h
          rw [Bool.or_eq_true, decide_eq_true_eq, decide_eq_true_eq] at hName
          exact .infinity hSign hName
        split at h
        · rename_i hName
          cases h
          exact .nan hSign hName
        · cases h
    | some read =>
        obtain ⟨n, rest⟩ := read
        rw [wholeNumber?, hRead] at h
        cases rest with
        | nil => exact .inl ⟨n, Numeral.leading?_whole_iff.mp hRead, (Option.some.inj h).symm⟩
        | cons c rest => cases h
  · rintro (⟨n, hSpelled, rfl⟩ | hNamed)
    · rw [wholeNumber?, Numeral.leading?_whole_iff.mpr hSpelled]
    · exact hNamed.wholeNumber?

/-! A text that is a number as a whole begins with no blank. -/

theorem isBlank_digit (h : c.isDigit = true) : Text.isBlank c = false := by
  have hBlanks : ∀ n ∈ Text.blankNumbers, n < 48 ∨ 57 < n := by decide
  have hRange : 48 ≤ c.toNat ∧ c.toNat ≤ 57 := by
    rw [Char.isDigit, Bool.and_eq_true, decide_eq_true_eq, decide_eq_true_eq] at h
    exact ⟨UInt32.le_iff_toNat_le.mp h.1, UInt32.le_iff_toNat_le.mp h.2⟩
  rw [← Bool.not_eq_true]
  intro hBlank
  have := hBlanks _ (Text.mem_blankNumbers hBlank)
  omega

theorem Signs.head (h : Signs sg negative) (hBehind : ∀ c ∈ cs.head?, Text.isBlank c = false) :
    ∀ c ∈ (sg ++ cs).head?, Text.isBlank c = false := by
  cases h with
  | none => exact hBehind
  | plus | minus =>
      rintro c ⟨⟩
      decide

theorem Numeral.Spelled.trimLeft_eq (h : n.Spelled t) : Text.trimLeft t = t := by
  cases h with
  | parts hSign hMantissa =>
      refine Text.trimLeft_eq (hSign.head fun c hc => ?_)
      rcases hMantissa.head _ c hc with rfl | hDigit
      · decide
      · exact isBlank_digit hDigit

theorem NonFinite.trimLeft_eq (h : NonFinite cs y) : Text.trimLeft cs = cs := by
  obtain ⟨sg, negative, name, rfl, hSign, hLetter⟩ := h.parts
  exact Text.trimLeft_eq (hSign.head fun c hc => (not_of_letter (hLetter c hc)).2.2.2)

/-- A text that is a numeral as a whole is read whole, as the number that it is. -/
theorem leadingNumber_spelled (h : n.Spelled s.toList) :
    Numeral.leading? (Text.trimLeft s.toList) = some (n, []) ∧ leadingNumber s = n.toFloat := by
  have hRead : Numeral.leading? (Text.trimLeft s.toList) = some (n, []) := by
    rw [h.trimLeft_eq]
    exact Numeral.leading?_whole_iff.mpr h
  exact ⟨hRead, by rw [leadingNumber, hRead]⟩

/-- Nothing is read of the name of an infinity or of not-a-number, which counts as zero. -/
theorem leadingNumber_nonFinite (h : NonFinite s.toList y) :
    Numeral.leading? (Text.trimLeft s.toList) = none ∧ leadingNumber s = 0 := by
  have hRead : Numeral.leading? (Text.trimLeft s.toList) = none := by
    rw [h.trimLeft_eq]
    exact h.leading?_eq_none
  exact ⟨hRead, by rw [leadingNumber, hRead]⟩

/-- A numeral is not the name of an infinity or of not-a-number. -/
theorem Numeral.Spelled.not_nonFinite (h : n.Spelled cs) : ¬ NonFinite cs y := by
  intro hNamed
  have hRead := leading?_whole_iff.mpr h
  rw [hNamed.leading?_eq_none] at hRead
  cases hRead

/-- What is a number as a whole is read whole, and as the same number, unless it is a name. -/
theorem leadingNumber_of_wholeNumber? (h : wholeNumber? s = some y) :
    ((∃ n, Numeral.leading? (Text.trimLeft s.toList) = some (n, [])) ↔ ¬ NonFinite s.toList y) ∧
      (leadingNumber s = y ↔ ¬ NonFinite s.toList y) ∧ (NonFinite s.toList y → leadingNumber s = 0) := by
  rcases wholeNumber?_eq_some_iff.mp h with ⟨n, hSpelled, rfl⟩ | hNamed
  · have hOther : ¬ NonFinite s.toList n.toFloat := hSpelled.not_nonFinite
    obtain ⟨hRead, hSame⟩ := leadingNumber_spelled hSpelled
    exact ⟨iff_of_true ⟨n, hRead⟩ hOther, iff_of_true hSame hOther, fun hNamed => absurd hNamed hOther⟩
  · obtain ⟨hNone, hZero⟩ := leadingNumber_nonFinite hNamed
    refine ⟨iff_of_false ?_ (not_not_intro hNamed), iff_of_false ?_ (not_not_intro hNamed), fun _ => hZero⟩
    · rintro ⟨n, hRead⟩
      rw [hNone] at hRead
      cases hRead
    · rw [hZero]
      exact hNamed.ne_zero.symm

end EntityScript.Decimal
