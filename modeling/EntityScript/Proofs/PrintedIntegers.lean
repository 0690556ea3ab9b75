import EntityScript.Format

/-! Integers written by a format specification, beside what C prints for them with the same one. The
precision is read but has no effect on an integer; nothing else differs. -/
namespace EntityScript

/-- A flag of a format specification. -/
inductive Flag where
  | minus
  | plus
  | space
  | zero
  | sharp
  deriving DecidableEq, Repr

def Flag.letter : Flag → Char
  | .minus => '-'
  | .plus => '+'
  | .space => ' '
  | .zero => '0'
  | .sharp => '#'

/-- A conversion of integers. -/
inductive IntegerConversion where
  | d
  | i
  | x
  | capitalX
  | o
  deriving DecidableEq, Repr

def IntegerConversion.letter : IntegerConversion → Char
  | .d => 'd'
  | .i => 'i'
  | .x => 'x'
  | .capitalX => 'X'
  | .o => 'o'

/-- A format specification of an integer as it is written. The width is empty if there is none, and begins
with no zero, which would be a flag. -/
structure IntegerFormat where
  flags : List Flag
  width : List Char
  precision : Option (List Char)
  conversion : IntegerConversion
  width_digits : ∀ c ∈ width, c.isDigit = true
  width_head : width.head? ≠ some '0'
  precision_digits : ∀ ds ∈ precision, ∀ c ∈ ds, c.isDigit = true

namespace IntegerFormat

/-- The text of a precision, behind its point. -/
def precisionText : Option (List Char) → List Char
  | none => []
  | some ds => '.' :: ds

def text (f : IntegerFormat) : List Char :=
  '%' :: (f.flags.map Flag.letter ++ (f.width ++ (precisionText f.precision ++ [f.conversion.letter])))

def leastWidth (f : IntegerFormat) : Nat := Nat.ofDigitChars 10 f.width 0

/-- The number that a precision spells; a point alone spells zero. -/
def leastDigits? (f : IntegerFormat) : Option Nat := f.precision.map (Nat.ofDigitChars 10 · 0)

/-! What C prints, a flag without a meaning for the conversion having no effect. -/

/-- The number in the base of the conversion, without its sign. -/
def numeral (f : IntegerFormat) (n : Int64) : List Char :=
  match f.conversion with
  | .d | .i => Nat.toDigits 10 n.toInt.natAbs
  | .x => Nat.toDigits 16 n.toUInt64.toNat
  | .capitalX => (Nat.toDigits 16 n.toUInt64.toNat).map Char.toUpper
  | .o => Nat.toDigits 8 n.toUInt64.toNat

/-- The digits that any precision shows. -/
def digits (f : IntegerFormat) (n : Int64) : List Char := if n = 0 then [] else f.numeral n

/-- The alternate form of an octal number. -/
def Octal (f : IntegerFormat) : Prop := f.conversion = .o ∧ .sharp ∈ f.flags

instance (f : IntegerFormat) : Decidable f.Octal := inferInstanceAs (Decidable (_ ∧ _))

/-- As many digits as the precision asks for at least; an octal number in the alternate form begins with a
zero. -/
def body (f : IntegerFormat) (n : Int64) : List Char :=
  let shown := List.replicate (f.leastDigits?.getD 1 - (f.digits n).length) '0' ++ f.digits n
  if f.Octal ∧ shown.head? ≠ some '0' then '0' :: shown else shown

/-- The sign or the mark of the base. -/
def front (f : IntegerFormat) (n : Int64) : List Char :=
  match f.conversion with
  | .d | .i =>
    if n < 0 then ['-'] else if .plus ∈ f.flags then ['+'] else if .space ∈ f.flags then [' '] else []
  | .x => if .sharp ∈ f.flags ∧ n ≠ 0 then ['0', 'x'] else []
  | .capitalX => if .sharp ∈ f.flags ∧ n ≠ 0 then ['0', 'X'] else []
  | .o => []

/-- What C prints for a 64-bit integer. Zeros fill the width only where no precision is given and the
number does not stand on the left. -/
def printed (f : IntegerFormat) (n : Int64) : List Char :=
  let fill := f.leastWidth - ((f.front n).length + (f.body n).length)
  if .minus ∈ f.flags then f.front n ++ f.body n ++ List.replicate fill ' '
  else if .zero ∈ f.flags ∧ f.precision = none then
    f.front n ++ List.replicate fill '0' ++ f.body n
  else List.replicate fill ' ' ++ f.front n ++ f.body n

/-- The specification without its precision. -/
def bare (f : IntegerFormat) : IntegerFormat := { f with precision := none, precision_digits := by simp }

/-! Reading a specification. -/

variable {f : IntegerFormat}

theorem span_written {p : Char → Bool} {xs ys : List Char} (hxs : ∀ c ∈ xs, p c = true)
    (hys : ∀ c ∈ ys.head?, p c = false) :
    (xs ++ ys).takeWhile p = xs ∧ (xs ++ ys).dropWhile p = ys := by
  rw [List.takeWhile_append_of_pos hxs, List.dropWhile_append_of_pos hxs]
  cases ys with
  | nil => simp
  | cons c ys =>
      have hc : p c = false := hys c rfl
      simp [hc]

theorem isFlag_letter (flag : Flag) : Format.isFlag flag.letter = true := by
  cases flag <;> decide

theorem contains_letter (flags : List Flag) (flag : Flag) :
    (flags.map Flag.letter).contains flag.letter = decide (flag ∈ flags) := by
  have hLetter : Function.Injective Flag.letter := by
    intro a b h
    cases a <;> cases b <;> first | rfl | exact absurd h (by decide)
  rw [List.contains_eq_mem, decide_eq_decide]
  exact ⟨fun h => by
    obtain ⟨other, hOther, hSame⟩ := List.mem_map.mp h
    exact hLetter hSame ▸ hOther, List.mem_map_of_mem⟩

theorem not_isFlag_of_isDigit {c : Char} (hDigit : c.isDigit = true) (hZero : c ≠ '0') :
    Format.isFlag c = false := by
  refine Bool.eq_false_iff.mpr fun hFlag => ?_
  simp only [Format.isFlag, Bool.or_eq_true, decide_eq_true_eq] at hFlag
  rcases hFlag with (((rfl | rfl) | rfl) | rfl) | rfl
  · exact absurd hDigit (by decide)
  · exact absurd hDigit (by decide)
  · exact absurd hDigit (by decide)
  · exact hZero rfl
  · exact absurd hDigit (by decide)

theorem digitsValue_eq (ds : List Char) : Text.digitsValue ds = Nat.ofDigitChars 10 ds 0 :=
  Nat.ofDigitChars_eq_foldl.symm

/-- The specification that is read. -/
def format (f : IntegerFormat) : Format where
  left := decide (.minus ∈ f.flags)
  plus := decide (.plus ∈ f.flags)
  space := decide (.space ∈ f.flags)
  zero := decide (.zero ∈ f.flags)
  alternate := decide (.sharp ∈ f.flags)
  width := f.leastWidth
  precision := f.leastDigits?
  conversion := f.conversion.letter

theorem parse?_text (f : IntegerFormat) : Format.parse? f.text = some f.format := by
  have hConversion : f.conversion.letter ≠ '.' ∧ f.conversion.letter.isDigit = false ∧
      Format.isFlag f.conversion.letter = false ∧ Format.isLength f.conversion.letter = false := by
    cases f.conversion <;> decide
  obtain ⟨hPoint, hDigit, hFlag, hLength⟩ := hConversion
  have hBehindWidth : ∀ c ∈ (precisionText f.precision ++ [f.conversion.letter]).head?,
      c.isDigit = false ∧ Format.isFlag c = false := by
    intro c hc
    cases hPrecision : f.precision with
    | none =>
        obtain rfl : f.conversion.letter = c := by simpa [hPrecision, precisionText] using hc
        exact ⟨hDigit, hFlag⟩
    | some ds =>
        obtain rfl : '.' = c := by simpa [hPrecision, precisionText] using hc
        decide
  have hBehindFlags : ∀ c ∈ (f.width ++ (precisionText f.precision ++ [f.conversion.letter])).head?,
      Format.isFlag c = false := by
    intro c hc
    cases hWidth : f.width with
    | nil => exact (hBehindWidth c (by simpa [hWidth] using hc)).2
    | cons d ds =>
        obtain rfl : d = c := by simpa [hWidth] using hc
        refine not_isFlag_of_isDigit (f.width_digits d (by simp [hWidth])) fun hZero => ?_
        exact f.width_head (by rw [hWidth, hZero]; rfl)
  have hFlags : ∀ c ∈ f.flags.map Flag.letter, Format.isFlag c = true := by
    intro c hc
    obtain ⟨flag, _, rfl⟩ := List.mem_map.mp hc
    exact isFlag_letter flag
  obtain ⟨hReadFlags, hRest⟩ := span_written hFlags hBehindFlags
  obtain ⟨hReadWidth, hRest'⟩ := span_written f.width_digits fun c hc => (hBehindWidth c hc).1
  have hLetter : [f.conversion.letter].dropWhile Format.isLength = [f.conversion.letter] :=
    List.dropWhile_cons_of_neg (by simp [hLength])
  rw [text, Format.parse?]
  simp only [hReadFlags, hRest, hReadWidth, hRest', digitsValue_eq]
  cases hPrecision : f.precision with
  | none =>
      simp only [precisionText, List.nil_append, List.cons.injEq, hPoint, false_and, imp_self,
        implies_true, hLetter]
      simp only [format, leastWidth, leastDigits?, hPrecision, ← contains_letter]
      rfl
  | some ds =>
      have hBehind : ∀ c ∈ [f.conversion.letter].head?, c.isDigit = false := by simpa using hDigit
      obtain ⟨hReadDigits, hRest⟩ :=
        span_written (f.precision_digits ds (by simp [hPrecision])) hBehind
      simp only [precisionText, List.cons_append, hReadDigits, hRest, hLetter]
      simp only [format, leastWidth, leastDigits?, hPrecision, ← contains_letter]
      rfl

/-! What is written. -/

theorem head_toDigits {b n : Nat} (hBase : 1 < b) (hSmall : b ≤ 10) (hn : n ≠ 0) :
    (Nat.toDigits b n).head? ≠ some '0' := by
  induction n using Nat.strongRecOn with
  | ind n ih =>
      by_cases hDigit : n < b
      · rw [Nat.toDigits_of_lt_base hDigit]
        have hOne : ∀ m < 10, m ≠ 0 → [m.digitChar].head? ≠ some '0' := by decide
        exact hOne n (Nat.lt_of_lt_of_le hDigit hSmall) hn
      · have hLess : n / b < n := Nat.div_lt_self (Nat.pos_of_ne_zero hn) hBase
        have hSome : n / b ≠ 0 := by
          have := Nat.div_pos (Nat.le_of_not_lt hDigit) (Nat.zero_lt_of_lt hBase)
          omega
        have hFirst := ih _ hLess hSome
        obtain ⟨d, ds, hDigits⟩ := List.exists_cons_of_ne_nil (Nat.toDigits_ne_nil (b := b) (n := n / b))
        rw [Nat.toDigits_of_base_le hBase (Nat.le_of_not_lt hDigit), hDigits]
        rwa [hDigits] at hFirst

theorem toNat_ne_zero {n : Int64} (h : n ≠ 0) : n.toUInt64.toNat ≠ 0 := by
  obtain ⟨bits⟩ := n
  intro hZero
  obtain rfl : bits = 0 := UInt64.toNat_inj.mp hZero
  exact h rfl

@[simp] theorem numeral_zero (f : IntegerFormat) : f.numeral 0 = ['0'] := by
  unfold numeral
  cases f.conversion <;> rfl

theorem numeral_ne_nil (f : IntegerFormat) (n : Int64) : f.numeral n ≠ [] := by
  unfold numeral
  cases f.conversion <;> simp [Nat.toDigits_ne_nil]

theorem head_numeral (hOctal : f.Octal) {n : Int64} (hn : n ≠ 0) : (f.numeral n).head? ≠ some '0' := by
  simp only [numeral, hOctal.1]
  exact head_toDigits (by decide) (by decide) (toNat_ne_zero hn)

/-- Without a precision the number is shown as it is. -/
theorem body_bare (f : IntegerFormat) (n : Int64) :
    f.bare.body n = if f.Octal ∧ n ≠ 0 then '0' :: f.numeral n else f.numeral n := by
  have hBare : f.bare.body n =
      if f.Octal ∧ (List.replicate (1 - (f.digits n).length) '0' ++ f.digits n).head? ≠ some '0' then
        '0' :: (List.replicate (1 - (f.digits n).length) '0' ++ f.digits n)
      else List.replicate (1 - (f.digits n).length) '0' ++ f.digits n := rfl
  rw [hBare]
  by_cases hn : n = 0
  · subst hn
    simp [digits]
  · have hDigits : f.digits n = f.numeral n := if_neg hn
    have hLength : 1 - (f.numeral n).length = 0 := by
      have := List.length_pos_iff.mpr (f.numeral_ne_nil n)
      omega
    rw [hDigits, hLength, List.replicate_zero, List.nil_append]
    by_cases hOctal : f.Octal
    · simp [hOctal, hn, head_numeral hOctal hn]
    · simp [hOctal]

theorem splitSign_decimal (g : Format) (n : Int64) :
    g.splitSign (toString n).toList =
      (if n < 0 then ['-'] else if g.plus then ['+'] else if g.space then [' '] else [],
        Nat.toDigits 10 n.toInt.natAbs) := by
  have hSign : n < 0 ↔ n.toInt < 0 := Int64.lt_iff_toInt_lt
  have hShown : toString n = Int.repr n.toInt := rfl
  rw [hShown]
  cases hInt : n.toInt with
  | ofNat m =>
      have hPlus : ¬n < 0 := by
        rw [hSign, hInt]
        exact Int.not_lt.mpr (Int.natCast_nonneg m)
      have hDigits : (Int.repr (Int.ofNat m)).toList = Nat.toDigits 10 m := Nat.toList_repr
      rw [hDigits, if_neg hPlus, Format.splitSign]
      · rfl
      · intro ds hMinus
        have hDigit := Nat.isDigit_of_mem_toDigits (b := 10) (by decide) (by decide)
          (hMinus ▸ List.mem_cons_self)
        exact absurd hDigit (by decide)
  | negSucc m =>
      have hMinus : n < 0 := by
        rw [hSign, hInt]
        exact Int.negSucc_lt_zero m
      have hDigits : (Int.repr (Int.negSucc m)).toList = '-' :: Nat.toDigits 10 (m + 1) := by
        rw [Int.repr, String.toList_append, Nat.toList_repr]
        rfl
      rw [hDigits, if_pos hMinus]
      rfl

/-- A mark that counts as the sign is filled behind as if it were a digit. -/
theorem pad_mark (g : Format) (ds : List Char) :
    g.pad true ['0'] ds = g.pad true [] ('0' :: ds) := by
  have hFill : g.width - (['0'].length + ds.length) =
      g.width - (([] : List Char).length + ('0' :: ds).length) := by
    simp only [List.length_cons, List.length_nil]
    omega
  rw [Format.pad, Format.pad, hFill]
  split
  · rfl
  · split
    · rw [List.nil_append, List.append_cons, ← List.replicate_succ', List.replicate_succ]
      rfl
    · simp

theorem printed_bare (f : IntegerFormat) (n : Int64) :
    f.bare.printed n = f.format.pad true (f.front n) (f.bare.body n) := by
  have hFront : f.bare.front n = f.front n := rfl
  have hFlags : f.bare.flags = f.flags := rfl
  have hWidth : f.bare.leastWidth = f.leastWidth := rfl
  have hNone : f.bare.precision = none := rfl
  rw [printed, Format.pad, hFront, hFlags, hWidth, hNone]
  simp [format]

theorem radix_format (f : IntegerFormat) (base : Nat) (capital : Bool) (mark : List Char) (n : Int64) :
    f.format.radix base capital mark n =
      (if .sharp ∈ f.flags ∧ n ≠ 0 then mark else [],
        if capital then (Nat.toDigits base n.toUInt64.toNat).map Char.toUpper
        else Nat.toDigits base n.toUInt64.toNat) := by
  have hMarked : (f.format.alternate && decide (n ≠ 0)) = true ↔ .sharp ∈ f.flags ∧ n ≠ 0 := by
    rw [Bool.and_eq_true, decide_eq_true_eq, format, decide_eq_true_eq]
  rw [Format.radix]
  simp only [hMarked]

/-- The precision that is read has no effect on a number. -/
theorem render_format (f : IntegerFormat) (n : Int64) :
    f.format.render (.int n) = f.format.pad true (f.front n) (f.bare.body n) := by
  rw [body_bare]
  have hFormat : f.format.conversion = f.conversion.letter := rfl
  have hDecimal (h : f.conversion = .d ∨ f.conversion = .i) :
      f.format.splitSign (toString n).toList = (f.front n, f.numeral n) ∧ ¬f.Octal := by
    rw [splitSign_decimal]
    rcases h with h | h <;> simp [front, numeral, Octal, format, h]
  cases hConversion : f.conversion with
  | d =>
      obtain ⟨hSplit, hPlain⟩ := hDecimal (.inl hConversion)
      rw [if_neg fun h => hPlain h.1]
      simp only [Format.render, hFormat, hConversion, IntegerConversion.letter, Value.asInt, hSplit]
  | i =>
      obtain ⟨hSplit, hPlain⟩ := hDecimal (.inr hConversion)
      rw [if_neg fun h => hPlain h.1]
      simp only [Format.render, hFormat, hConversion, IntegerConversion.letter, Value.asInt, hSplit]
  | x =>
      have hPlain : ¬f.Octal := fun h => nomatch hConversion.symm.trans h.1
      rw [if_neg fun h => hPlain h.1]
      simp only [Format.render, radix_format, front, numeral, hFormat, hConversion,
        IntegerConversion.letter, Value.asInt]
      rfl
  | capitalX =>
      have hPlain : ¬f.Octal := fun h => nomatch hConversion.symm.trans h.1
      rw [if_neg fun h => hPlain h.1]
      simp only [Format.render, radix_format, front, numeral, hFormat, hConversion,
        IntegerConversion.letter, Value.asInt]
      rfl
  | o =>
      have hFront : f.front n = [] := by simp [front, hConversion]
      have hRender : f.format.render (.int n) =
          f.format.pad true (if .sharp ∈ f.flags ∧ n ≠ 0 then ['0'] else []) (f.numeral n) := by
        simp only [Format.render, radix_format, numeral, hFormat, hConversion,
          IntegerConversion.letter, Value.asInt]
        rfl
      rw [hRender, hFront]
      by_cases hMark : .sharp ∈ f.flags ∧ n ≠ 0
      · rw [if_pos hMark, if_pos ⟨⟨hConversion, hMark.1⟩, hMark.2⟩, pad_mark]
      · rw [if_neg hMark, if_neg fun h => hMark ⟨h.1.2, h.2⟩]

/-- A number is written as C prints it without the precision. -/
theorem formatted_text (f : IntegerFormat) (n : Int64) :
    Value.formatted (String.ofList f.text) (.int n) = String.ofList (f.bare.printed n) := by
  rw [Value.formatted, String.toList_ofList, parse?_text, printed_bare, ← render_format]

/-! Where the precision makes no difference. -/

/-- The digits behind the zeros that the precision and the alternate form put in front. -/
theorem exists_zeros (f : IntegerFormat) (n : Int64) :
    ∃ k, f.body n = List.replicate k '0' ++ f.digits n := by
  unfold body
  dsimp only
  split
  · exact ⟨_ + 1, by rw [List.replicate_succ, List.cons_append]⟩
  · exact ⟨_, rfl⟩

/-- Bodies of one length are the same. -/
theorem body_eq_iff {shown : List Char} {n : Int64}
    (h : ∃ k, shown = List.replicate k '0' ++ f.digits n) :
    f.body n = shown ↔ (f.body n).length = shown.length := by
  obtain ⟨k, rfl⟩ := h
  obtain ⟨m, hBody⟩ := f.exists_zeros n
  refine ⟨fun h => h ▸ rfl, fun hLength => ?_⟩
  rw [hBody, List.length_append, List.length_append, List.length_replicate,
    List.length_replicate] at hLength
  obtain rfl : m = k := by omega
  exact hBody

theorem length_body {p : Nat} (hPrecision : f.leastDigits? = some p) (n : Int64) :
    (f.body n).length = if p = 0 ∧ n = 0 ∧ ¬f.Octal then 0 else max p (f.bare.body n).length := by
  have hSome := List.length_pos_iff.mpr (f.numeral_ne_nil n)
  rw [body_bare, body, hPrecision, Option.getD_some]
  by_cases hn : n = 0
  · subst hn
    cases p <;> by_cases hOctal : f.Octal <;> simp [digits, hOctal, List.replicate_succ]
  · have hDigits : f.digits n = f.numeral n := if_neg hn
    have hShown : ¬(p = 0 ∧ n = 0 ∧ ¬f.Octal) := fun h => hn h.2.1
    rw [hDigits, if_neg hShown]
    by_cases hOctal : f.Octal
    · cases hFill : p - (f.numeral n).length with
      | zero =>
          simp only [hOctal, hn, head_numeral hOctal hn, List.replicate_zero, List.nil_append, ne_eq,
            not_false_eq_true, and_self, if_true, List.length_cons]
          omega
      | succ fill =>
          simp only [hOctal, hn, List.replicate_succ, List.cons_append, List.head?_cons, ne_eq,
            not_true_eq_false, and_false, if_false, not_false_eq_true, and_self, if_true,
            List.length_cons, List.length_append, List.length_replicate]
          omega
    · simp only [hOctal, false_and, if_false, List.length_append, List.length_replicate]
      omega

theorem exists_digitChar {b n : Nat} {c : Char} (hBase : 1 < b) (hSmall : b ≤ 16)
    (h : c ∈ Nat.toDigits b n) : ∃ k < 16, c = k.digitChar := by
  induction n using Nat.strongRecOn with
  | ind n ih =>
      by_cases hDigit : n < b
      · rw [Nat.toDigits_of_lt_base hDigit, List.mem_singleton] at h
        exact ⟨n, by omega, h⟩
      · have hLess : n / b < n := Nat.div_lt_self (by omega) hBase
        rw [Nat.toDigits_of_base_le hBase (Nat.le_of_not_lt hDigit), List.mem_append,
          List.mem_singleton] at h
        rcases h with h | h
        · exact ih _ hLess h
        · have hRest : n % b < b := Nat.mod_lt _ (by omega)
          exact ⟨n % b, by omega, h⟩

theorem blank_notMem_digits (f : IntegerFormat) (n : Int64) : ' ' ∉ f.digits n := by
  have hDigit : ∀ k < 16, k.digitChar ≠ ' ' ∧ k.digitChar.toUpper ≠ ' ' := by decide
  have hPlain {b m : Nat} (hBase : 1 < b) (hSmall : b ≤ 16) : ' ' ∉ Nat.toDigits b m := fun h => by
    obtain ⟨k, hk, hSame⟩ := exists_digitChar hBase hSmall h
    exact (hDigit k hk).1 hSame.symm
  unfold digits numeral
  split
  · exact List.not_mem_nil
  cases f.conversion with
  | d => exact hPlain (by decide) (by decide)
  | i => exact hPlain (by decide) (by decide)
  | x => exact hPlain (by decide) (by decide)
  | o => exact hPlain (by decide) (by decide)
  | capitalX =>
      intro h
      obtain ⟨c, hc, hSame⟩ := List.mem_map.mp h
      obtain ⟨k, hk, rfl⟩ := exists_digitChar (by decide) (by decide) hc
      exact (hDigit k hk).2 hSame

/-- What is shown behind the sign or the mark when no precision is given, with the zeros that fill the
width. -/
def filled (f : IntegerFormat) (n : Int64) : List Char :=
  if .zero ∈ f.flags ∧ .minus ∉ f.flags then
    List.replicate (f.leastWidth - ((f.front n).length + (f.bare.body n).length)) '0' ++ f.bare.body n
  else f.bare.body n

theorem filled_zeros (f : IntegerFormat) (n : Int64) :
    ∃ k, f.filled n = List.replicate k '0' ++ f.digits n := by
  obtain ⟨k, hBody⟩ : ∃ k, f.bare.body n = List.replicate k '0' ++ f.digits n := f.bare.exists_zeros n
  unfold filled
  split
  · exact ⟨_ + k, by rw [hBody, ← List.append_assoc, List.replicate_append_replicate]⟩
  · exact ⟨k, hBody⟩

/-- Where no precision is given, blanks stand around the sign or the mark and what is shown behind it. -/
theorem printed_filled (f : IntegerFormat) (n : Int64) :
    ∃ a b, f.bare.printed n =
      List.replicate a ' ' ++ (f.front n ++ (f.filled n ++ List.replicate b ' ')) := by
  rw [printed_bare, Format.pad, filled]
  by_cases hLeft : .minus ∈ f.flags
  · refine ⟨0, f.leastWidth - ((f.front n).length + (f.bare.body n).length), ?_⟩
    simp [format, hLeft]
  · by_cases hZero : .zero ∈ f.flags
    · exact ⟨0, 0, by simp [format, hLeft, hZero]⟩
    · refine ⟨f.leastWidth - ((f.front n).length + (f.bare.body n).length), 0, ?_⟩
      simp [format, hLeft, hZero]

theorem printed_body {p : Nat} (hPrecision : f.leastDigits? = some p) (n : Int64) :
    ∃ a b, f.printed n = List.replicate a ' ' ++ (f.front n ++ (f.body n ++ List.replicate b ' ')) := by
  have hGiven : f.precision ≠ none := fun hNone => by simp [leastDigits?, hNone] at hPrecision
  rw [printed]
  by_cases hLeft : .minus ∈ f.flags
  · exact ⟨0, f.leastWidth - ((f.front n).length + (f.body n).length), by simp [hLeft]⟩
  · exact ⟨f.leastWidth - ((f.front n).length + (f.body n).length), 0, by simp [hLeft, hGiven]⟩

/-- Both print the same if the same digits are shown. -/
theorem printed_eq_iff {p : Nat} (hPrecision : f.leastDigits? = some p) (n : Int64) :
    f.printed n = f.bare.printed n ↔ f.body n = f.filled n := by
  have hSolid {cs : List Char} (h : ∃ k, cs = List.replicate k '0' ++ f.digits n) :
      cs.filter (· ≠ ' ') = cs := by
    obtain ⟨k, rfl⟩ := h
    refine List.filter_eq_self.mpr fun c hc => ?_
    have hBlank : c ≠ ' ' := by
      rintro rfl
      rcases List.mem_append.mp hc with hc | hc
      · exact absurd (List.eq_of_mem_replicate hc) (by decide)
      · exact f.blank_notMem_digits n hc
    simpa using hBlank
  have hBlanks (k : Nat) : (List.replicate k ' ').filter (· ≠ ' ') = [] := by
    simp
  constructor
  · intro hSame
    obtain ⟨a, b, hBody⟩ := printed_body hPrecision n
    obtain ⟨a', b', hFilled⟩ := f.printed_filled n
    have hShown := congrArg (List.filter (· ≠ ' ')) (hBody.symm.trans (hSame.trans hFilled))
    simp only [List.filter_append, hBlanks, hSolid (f.exists_zeros n), hSolid (f.filled_zeros n),
      List.nil_append, List.append_nil] at hShown
    exact List.append_cancel_left hShown
  · intro hSame
    have hGiven : f.precision ≠ none := fun hNone => by simp [leastDigits?, hNone] at hPrecision
    rw [printed_bare, printed, Format.pad, hSame, filled]
    by_cases hLeft : .minus ∈ f.flags
    · simp [format, hLeft]
    · by_cases hZero : .zero ∈ f.flags
      · have hFull : f.leastWidth - ((f.front n).length +
            (f.leastWidth - ((f.front n).length + (f.bare.body n).length) + (f.bare.body n).length)) = 0 := by
          omega
        simp [format, hLeft, hZero, hGiven, hFull]
      · simp [format, hLeft, hZero]

/-- The precision asks for the digits that are shown without it: at least one, unless one is shown anyway,
and no more than stand there, the zeros that fill the width included. -/
def PrecisionIdle (f : IntegerFormat) (n : Int64) : Prop :=
  ∀ p, f.leastDigits? = some p → ¬(p = 0 ∧ n = 0 ∧ ¬f.Octal) ∧
    max p (f.bare.body n).length =
      if .zero ∈ f.flags ∧ .minus ∉ f.flags then
        max (f.bare.body n).length (f.leastWidth - (f.front n).length)
      else (f.bare.body n).length

theorem length_filled (f : IntegerFormat) (n : Int64) :
    (f.filled n).length = if .zero ∈ f.flags ∧ .minus ∉ f.flags then
        max (f.bare.body n).length (f.leastWidth - (f.front n).length)
      else (f.bare.body n).length := by
  unfold filled
  split
  · rw [List.length_append, List.length_replicate]
    omega
  · rfl

theorem printed_eq_bare_iff (f : IntegerFormat) (n : Int64) :
    f.printed n = f.bare.printed n ↔ f.PrecisionIdle n := by
  cases hPrecision : f.leastDigits? with
  | none =>
      have hBare : f.bare = f := by
        obtain ⟨flags, width, precision, conversion, _, _, _⟩ := f
        obtain rfl : precision = none := Option.map_eq_none_iff.mp hPrecision
        rfl
      rw [hBare]
      exact iff_of_true rfl fun p hp => nomatch hPrecision.symm.trans hp
  | some p =>
      have hSome : 0 < (f.filled n).length := by
        have := List.length_pos_iff.mpr (f.numeral_ne_nil n)
        have hBody := f.length_filled n
        have hBare : 0 < (f.bare.body n).length := by
          rw [body_bare]
          split <;> simp [this]
        split at hBody <;> omega
      rw [printed_eq_iff hPrecision, body_eq_iff (f.filled_zeros n), length_body hPrecision,
        PrecisionIdle, hPrecision]
      simp only [Option.some.injEq, forall_eq', ← length_filled]
      by_cases hNone : p = 0 ∧ n = 0 ∧ ¬f.Octal
      · rw [if_pos hNone]
        exact iff_of_false (by omega) fun h => h.1 hNone
      · rw [if_neg hNone]
        exact ⟨fun h => ⟨hNone, h⟩, And.right⟩

/-- An integer is written as C prints it with the precision left out, so as C prints it exactly where the
precision makes no difference. -/
theorem integers_print_without_precision (f : IntegerFormat) (n : Int64) :
    Value.formatted (String.ofList f.text) (.int n) = String.ofList (f.bare.printed n) ∧
    (Value.formatted (String.ofList f.text) (.int n) = String.ofList (f.printed n) ↔
      f.PrecisionIdle n) := by
  refine ⟨f.formatted_text n, ?_⟩
  rw [formatted_text, String.ofList_inj, eq_comm, printed_eq_bare_iff]

/-- Five digits are asked for and two are shown. -/
example : Value.formatted "%.5d" (.int 42) = "42" := by decide

end IntegerFormat
end EntityScript
