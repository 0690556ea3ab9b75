import EntityScript.Proofs.LowerCase
import EntityScript.Script.Normal

/-! Block comments and the normal form of a text. A comment opens at `/*`, unless two slashes begin before it
on its line, and runs to the first `*/` behind its opening, or to the end. The normal form has blanks in
the place of the bytes of comments and is the lowered text everywhere else; a text in normal form is its own
normal form. -/
namespace EntityScript

namespace Text

variable {c : Char} {cs : List Char}

/-- The bytes of characters in UTF-8. -/
def bytes (cs : List Char) : List UInt8 := cs.flatMap String.utf8EncodeChar

/-- A newline stays, and every other byte becomes a blank. -/
def blankByte (b : UInt8) : UInt8 := if b = '\n'.toUInt8 then b else ' '.toUInt8

/-- Blanks in the place of a character, unless it is a newline. -/
def blanks (c : Char) : List Char := if c = '\n' then ['\n'] else List.replicate c.utf8Size ' '

@[simp] theorem bytes_cons (c : Char) (cs : List Char) :
    bytes (c :: cs) = String.utf8EncodeChar c ++ bytes cs := rfl

@[simp] theorem bytes_append (cs ds : List Char) : bytes (cs ++ ds) = bytes cs ++ bytes ds :=
  List.flatMap_append

@[simp] theorem length_bytes (cs : List Char) : (bytes cs).length = width cs := by
  induction cs with
  | nil => rfl
  | cons c cs ih => rw [bytes_cons, List.length_append, String.length_utf8EncodeChar, ih, width_cons]

theorem blankByte_eq_newline {b : UInt8} : blankByte b = '\n'.toUInt8 ↔ b = '\n'.toUInt8 := by
  unfold blankByte
  split
  · rfl
  · rename_i hOther
    exact ⟨fun h => absurd h (by decide), fun h => absurd h hOther⟩

/-- A byte of a character is the number of the character, unless both lie beyond ASCII. -/
theorem toNat_of_mem {b : UInt8} {c : Char} (h : b ∈ String.utf8EncodeChar c) :
    b.toNat = c.toNat ∨ (127 < b.toNat ∧ 127 < c.toNat) := by
  have hByte (n : Nat) (hb : b = UInt8.ofNat n) : b.toNat = n % 256 := by
    rw [hb, UInt8.toNat_ofNat']
  have hVal : c.toNat = c.val.toNat := rfl
  have hBound : c.val.toNat < 1114112 := by
    rcases c.valid with h | h <;> omega
  rw [String.utf8EncodeChar] at h
  split at h
  · have := hByte _ (List.mem_singleton.mp h)
    omega
  split at h
  · simp only [List.mem_cons, List.not_mem_nil, or_false] at h
    rcases h with h | h <;> · have := hByte _ h; omega
  split at h
  · simp only [List.mem_cons, List.not_mem_nil, or_false] at h
    rcases h with h | h | h <;> · have := hByte _ h; omega
  · simp only [List.mem_cons, List.not_mem_nil, or_false] at h
    rcases h with h | h | h | h <;> · have := hByte _ h; omega

/-- Only the newline has the byte of a newline. -/
theorem eq_newline_of_mem (h : '\n'.toUInt8 ∈ String.utf8EncodeChar c) : c = '\n' := by
  have hTen : '\n'.toUInt8.toNat = 10 := by decide
  have hVal : c.val.toNat = 10 := by
    have hNumber := toNat_of_mem h
    rw [hTen] at hNumber
    exact (hNumber.resolve_right fun hBeyond => by omega).symm
  exact Char.ext (UInt32.toNat_inj.mp hVal)

theorem bytes_blanks (c : Char) : bytes (blanks c) = (String.utf8EncodeChar c).map blankByte := by
  by_cases hNewline : c = '\n'
  · subst hNewline
    decide
  have hBlank (n : Nat) : bytes (List.replicate n ' ') = List.replicate n ' '.toUInt8 := by
    induction n with
    | zero => rfl
    | succ n ih => rw [List.replicate_succ, bytes_cons, ih]; rfl
  have hByte (b : UInt8) (hb : b ∈ String.utf8EncodeChar c) : blankByte b = ' '.toUInt8 := by
    refine if_neg ?_
    rintro rfl
    exact hNewline (eq_newline_of_mem hb)
  rw [blanks, if_neg hNewline, hBlank, List.map_congr_left hByte, List.map_const',
    String.length_utf8EncodeChar]

theorem bytes_flatMap_blanks (cs : List Char) : bytes (cs.flatMap blanks) = (bytes cs).map blankByte := by
  induction cs with
  | nil => rfl
  | cons c cs ih => rw [List.flatMap_cons, bytes_append, bytes_blanks, ih, bytes_cons, List.map_append]

end Text

namespace Script

variable {zone : CommentZone} {c : Char} {before body code comment cs rest text : List Char}

/-- Two slashes begin in `code` with no newline behind them. They shield the slash behind `code`, which may
be the second of them. -/
def Shielded (code : List Char) : Prop :=
  ∃ before line, code ++ ['/'] = before ++ '/' :: '/' :: line ∧ '\n' ∉ line

/-- No block comment opens in `code`: every `/*` that begins in it is shielded. -/
def NoComment (code rest : List Char) : Prop :=
  ∀ before behind, code ++ rest = before ++ '/' :: '*' :: behind → before.length < code.length →
    Shielded before

/-- A block comment with its delimiters, and what is behind it. It ends at the first `*/` behind the
opening; without one it is the rest of the text. -/
inductive BlockComment : List Char → List Char → Prop where
  | closed {body rest : List Char} (hBody : ¬ ['*', '/'] <:+: body) :
      BlockComment ('/' :: '*' :: (body ++ ['*', '/'])) rest
  | unclosed {body : List Char} (hBody : ¬ ['*', '/'] <:+: body) : BlockComment ('/' :: '*' :: body) []

/-- The text is `code`, in which no block comment opens, then a block comment, and then `rest`. -/
structure FirstComment (code comment rest : List Char) : Prop where
  none : NoComment code (comment ++ rest)
  bare : ¬ Shielded code
  comment : BlockComment comment rest

/-- The byte of the text lies in a block comment: in the first one, or in one behind it. -/
inductive Commented : List Char → Nat → Prop where
  | within {code comment rest : List Char} {i : Nat} (h : FirstComment code comment rest)
      (hFrom : Text.width code ≤ i) (hTo : i < Text.width code + Text.width comment) :
      Commented (code ++ (comment ++ rest)) i
  | behind {code comment rest : List Char} {i : Nat} (h : FirstComment code comment rest)
      (hRest : Commented rest i) :
      Commented (code ++ (comment ++ rest)) (Text.width code + Text.width comment + i)

/-! The scan goes through code character by character. -/

/-- The zone behind a character of code; `next` is the character that follows it. -/
def CommentZone.after (zone : CommentZone) (c : Char) (next : Option Char) : CommentZone :=
  if c = '\n' then .code else if c = '/' ∧ next = some '/' then .line else zone

theorem CommentZone.after_ne_block (h : zone ≠ .block) (c : Char) (next : Option Char) :
    zone.after c next ≠ .block := by
  unfold after
  split
  · nofun
  split
  · nofun
  · exact h

theorem blankComments_cons (hZone : zone ≠ .block)
    (hOpening : c = '/' → cs.head? = some '*' → zone = .line) :
    blankComments zone (c :: cs) = c :: blankComments (zone.after c cs.head?) cs := by
  generalize hText : c :: cs = text
  fun_cases blankComments zone text with
  | case1 => cases hText
  | case2 => exact absurd rfl hZone
  | case3 => exact absurd rfl hZone
  | case4 =>
      obtain ⟨rfl, rfl⟩ := List.cons.inj hText
      rfl
  | case5 rest =>
      obtain ⟨rfl, rfl⟩ := List.cons.inj hText
      cases hOpening rfl rfl
  | case6 =>
      obtain ⟨rfl, rfl⟩ := List.cons.inj hText
      rfl
  | case7 =>
      obtain ⟨rfl, rfl⟩ := List.cons.inj hText
      rfl
  | case8 zone _ first behind _ hSlashes hNewline =>
      obtain ⟨rfl, rfl⟩ := List.cons.inj hText
      have hSame : ¬ (c = '/' ∧ cs.head? = some '/') := by
        rintro ⟨hSlash, hNext⟩
        obtain ⟨rest, hRest⟩ := List.head?_eq_some_iff.mp hNext
        exact hSlashes rest hSlash hRest
      rw [CommentZone.after, if_neg hNewline, if_neg hSame]

theorem blankComments_opening (rest : List Char) :
    blankComments .code ('/' :: '*' :: rest) = ' ' :: ' ' :: blankComments .block rest := rfl

/-- Shielded by what is in `code`, or by the line remark that it begins in. -/
def ShieldedIn (zone : CommentZone) (code : List Char) : Prop :=
  Shielded code ∨ zone = .line ∧ '\n' ∉ code

theorem shieldedIn_code {code : List Char} : ShieldedIn .code code ↔ Shielded code := by
  simp [ShieldedIn]

theorem shieldedIn_nil : ShieldedIn zone [] ↔ zone = .line := by
  constructor
  · rintro (⟨before, line, hText, -⟩ | ⟨hLine, -⟩)
    · have hLength := congrArg List.length hText
      simp only [List.nil_append, List.length_nil, List.length_append, List.length_cons] at hLength
      omega
    · exact hLine
  · exact fun hLine => .inr ⟨hLine, List.not_mem_nil⟩

theorem shielded_cons :
    Shielded (c :: cs) ↔ (c = '/' ∧ (cs ++ ['/']).head? = some '/' ∧ '\n' ∉ cs) ∨ Shielded cs := by
  constructor
  · rintro ⟨before, line, hText, hLine⟩
    cases before with
    | nil =>
        obtain ⟨rfl, hCode⟩ := List.cons.inj hText
        change cs ++ ['/'] = '/' :: line at hCode
        have hMem : '\n' ∉ cs ++ ['/'] := by simpa [hCode] using hLine
        exact .inl ⟨rfl, by rw [hCode]; rfl, fun h => hMem (List.mem_append_left _ h)⟩
    | cons first before => exact .inr ⟨before, line, (List.cons.inj hText).2, hLine⟩
  · rintro (⟨rfl, hNext, hLine⟩ | ⟨before, line, hText, hLine⟩)
    · obtain ⟨line, hCode⟩ := List.head?_eq_some_iff.mp hNext
      have hMem : '\n' ∉ '/' :: line := by simpa [← hCode] using hLine
      exact ⟨[], line, congrArg ('/' :: ·) hCode, fun h => hMem (.tail _ h)⟩
    · exact ⟨c :: before, line, congrArg (c :: ·) hText, hLine⟩

/-- Behind a character, code is shielded in the next zone if it was shielded with the character. -/
theorem shieldedIn_cons {next : Option Char} (hNext : next = (cs ++ ['/']).head?) :
    ShieldedIn zone (c :: cs) ↔ ShieldedIn (zone.after c next) cs := by
  subst hNext
  unfold CommentZone.after ShieldedIn
  rw [shielded_cons]
  by_cases hNewline : c = '\n'
  · simp [hNewline]
  by_cases hSlashes : c = '/' ∧ (cs ++ ['/']).head? = some '/'
  · rw [if_neg hNewline, if_pos hSlashes]
    simp only [List.mem_cons, Ne.symm hNewline, false_or]
    grind
  · rw [if_neg hNewline, if_neg hSlashes]
    simp only [List.mem_cons, Ne.symm hNewline, false_or]
    grind

/-- `NoComment` in a text that begins in the zone. -/
def NoCommentIn (zone : CommentZone) (code rest : List Char) : Prop :=
  ∀ before behind, code ++ rest = before ++ '/' :: '*' :: behind → before.length < code.length →
    ShieldedIn zone before

theorem noCommentIn_code {code rest : List Char} : NoCommentIn .code code rest ↔ NoComment code rest := by
  simp only [NoCommentIn, NoComment, shieldedIn_code]

/-- A character of code opens no comment, and in the code behind it none opens either. -/
theorem noCommentIn_cons : NoCommentIn zone (c :: cs) rest ↔
    (c = '/' → (cs ++ rest).head? = some '*' → zone = .line) ∧
      NoCommentIn (zone.after c (cs ++ rest).head?) cs rest := by
  have hNext (before behind : List Char) (h : cs ++ rest = before ++ '/' :: '*' :: behind) :
      (cs ++ rest).head? = (before ++ ['/']).head? := by
    rw [h]
    cases before <;> rfl
  constructor
  · intro h
    constructor
    · rintro rfl hStar
      obtain ⟨behind, hBehind⟩ := List.head?_eq_some_iff.mp hStar
      exact shieldedIn_nil.mp (h [] behind (congrArg ('/' :: ·) hBehind) (Nat.succ_pos _))
    · intro before behind hText hShort
      have hShielded := h (c :: before) behind (congrArg (c :: ·) hText) (Nat.succ_lt_succ hShort)
      exact (shieldedIn_cons (hNext _ _ hText)).mp hShielded
  · rintro ⟨hOpening, h⟩ before behind hText hShort
    cases before with
    | nil =>
        obtain ⟨rfl, hBehind⟩ := List.cons.inj hText
        change cs ++ rest = '*' :: behind at hBehind
        exact shieldedIn_nil.mpr (hOpening rfl (by rw [hBehind]; rfl))
    | cons first before =>
        obtain ⟨rfl, hBehind⟩ := List.cons.inj hText
        exact (shieldedIn_cons (hNext _ _ hBehind)).mpr
          (h before behind hBehind (Nat.lt_of_succ_lt_succ hShort))

/-- NoComment code stays as it is, up to the end or to the place at which a comment opens. -/
theorem blankComments_noComment (hZone : zone ≠ .block) (hNone : NoCommentIn zone code rest)
    (hStop : rest = [] ∨ (∃ behind, rest = '/' :: '*' :: behind) ∧ ¬ ShieldedIn zone code) :
    blankComments zone (code ++ rest) = code ++ blankComments .code rest := by
  induction code generalizing zone with
  | nil =>
      rcases hStop with rfl | ⟨⟨behind, rfl⟩, hBare⟩
      · simp [blankComments]
      · cases zone with
        | code => rfl
        | line => exact absurd (shieldedIn_nil.mpr rfl) hBare
        | block => exact absurd rfl hZone
  | cons c cs ih =>
      obtain ⟨hOpening, hBehind⟩ := noCommentIn_cons.mp hNone
      rw [List.cons_append, blankComments_cons hZone hOpening,
        ih (CommentZone.after_ne_block hZone _ _) hBehind]
      · rfl
      · rcases hStop with rfl | ⟨⟨behind, rfl⟩, hBare⟩
        · exact .inl rfl
        · refine .inr ⟨⟨behind, rfl⟩, fun h => hBare ((shieldedIn_cons ?_).mpr h)⟩
          cases cs <;> rfl

/-- In a text no comment opens, or one does and none before it. -/
theorem noCommentIn_or_opens (zone : CommentZone) (hZone : zone ≠ .block) (text : List Char) :
    NoCommentIn zone text [] ∨ ∃ code behind, text = code ++ '/' :: '*' :: behind ∧
      NoCommentIn zone code ('/' :: '*' :: behind) ∧ ¬ ShieldedIn zone code := by
  induction text generalizing zone with
  | nil => exact .inl fun before behind _ hShort => absurd hShort (Nat.not_lt_zero _)
  | cons c cs ih =>
      by_cases hOpening : c = '/' → cs.head? = some '*' → zone = .line
      · rcases ih (zone.after c cs.head?) (CommentZone.after_ne_block hZone _ _) with
          hNone | ⟨code, behind, rfl, hNone, hBare⟩
        · exact .inl (noCommentIn_cons.mpr ⟨by rwa [List.append_nil], by rwa [List.append_nil]⟩)
        · have hCode := noCommentIn_cons.mpr ⟨hOpening, hNone⟩
          refine .inr ⟨c :: code, behind, rfl, hCode, fun h => hBare ((shieldedIn_cons ?_).mp h)⟩
          cases code <;> rfl
      · obtain ⟨rfl, hStar, hLine⟩ : c = '/' ∧ cs.head? = some '*' ∧ zone ≠ .line := by
          simpa only [Classical.not_imp] using hOpening
        obtain ⟨behind, rfl⟩ := List.head?_eq_some_iff.mp hStar
        exact .inr ⟨[], behind, rfl, fun before _ _ hShort => absurd hShort (Nat.not_lt_zero _),
          mt shieldedIn_nil.mp hLine⟩

/-! A comment is scanned to its end. -/

theorem blankComments_body (hBody : ¬ ['*', '/'] <:+: body)
    (hStop : rest = [] ∨ ∃ behind, rest = '*' :: '/' :: behind) :
    blankComments .block (body ++ rest) = body.flatMap Text.blanks ++ blankComments .block rest := by
  induction body with
  | nil => rfl
  | cons c cs ih =>
      have hBehind : ¬ ['*', '/'] <:+: cs := fun h => hBody (List.infix_cons h)
      have hCloses (behind : List Char) (hStar : c = '*') (hSlash : cs ++ rest = '/' :: behind) : False := by
        cases cs with
        | nil =>
            rcases hStop with rfl | ⟨behind, rfl⟩
            · cases hSlash
            · cases (List.cons.inj hSlash).1
        | cons d ds =>
            obtain ⟨rfl, -⟩ := List.cons.inj hSlash
            subst hStar
            exact hBody ⟨[], ds, rfl⟩
      rw [List.cons_append, blankComments, ih hBehind, List.flatMap_cons, Text.blanks, List.append_assoc]
      exact hCloses

/-- The first place in a text at which a comment can end, if there is one. -/
theorem closes_or_not (text : List Char) : ¬ ['*', '/'] <:+: text ∨
    ∃ body rest, text = body ++ '*' :: '/' :: rest ∧ ¬ ['*', '/'] <:+: body := by
  induction text with
  | nil => exact .inl (by simp)
  | cons c cs ih =>
      by_cases hHere : ['*', '/'] <+: c :: cs
      · obtain ⟨rest, hRest⟩ := hHere
        exact .inr ⟨[], rest, hRest.symm, by simp⟩
      rcases ih with hNone | ⟨body, rest, rfl, hBody⟩
      · exact .inl fun h => (List.infix_cons_iff.mp h).elim hHere hNone
      · have hLater (h : ['*', '/'] <+: c :: body) : False :=
          hHere (h.trans (List.prefix_append (c :: body) ('*' :: '/' :: rest)))
        exact .inr ⟨c :: body, rest, rfl, fun h => (List.infix_cons_iff.mp h).elim hLater hBody⟩

/-- Every block comment has an end. -/
theorem exists_blockComment (behind : List Char) :
    ∃ comment rest, '/' :: '*' :: behind = comment ++ rest ∧ BlockComment comment rest := by
  rcases closes_or_not behind with hNone | ⟨body, rest, rfl, hBody⟩
  · exact ⟨_, [], (List.append_nil _).symm, .unclosed hNone⟩
  · exact ⟨_, rest, by simp, .closed hBody⟩

/-- The first comment of a text is blanked, and the scan starts over behind it. -/
theorem FirstComment.blankComments_eq (h : FirstComment code comment rest) :
    blankComments .code (code ++ (comment ++ rest)) =
      code ++ (comment.flatMap Text.blanks ++ blankComments .code rest) := by
  have hCode : CommentZone.code ≠ .block := nofun
  have hNone := noCommentIn_code.mpr h.none
  have hBare := mt shieldedIn_code.mp h.bare
  have hOpening : Text.blanks '/' = [' '] ∧ Text.blanks '*' = [' '] := by decide
  cases h.comment with
  | @closed body rest hBody =>
      have hText : '/' :: '*' :: (body ++ ['*', '/']) ++ rest =
          '/' :: '*' :: (body ++ '*' :: '/' :: rest) := by simp
      rw [blankComments_noComment hCode hNone (.inr ⟨⟨_, hText⟩, hBare⟩), hText, blankComments_opening,
        blankComments_body hBody (.inr ⟨rest, rfl⟩), blankComments]
      simp [List.flatMap_append, hOpening]
  | unclosed hBody =>
      rw [blankComments_noComment hCode hNone (.inr ⟨⟨_, List.append_nil _⟩, hBare⟩), List.append_nil,
        blankComments_opening]
      have hInside := blankComments_body hBody (.inl rfl)
      rw [List.append_nil] at hInside
      rw [hInside]
      simp [hOpening, blankComments]

/-! A text is cut in one way only. -/

theorem body_length_le {other tail : List Char} (hOther : ¬ ['*', '/'] <:+: other)
    (hText : body ++ '*' :: '/' :: rest = other ++ tail)
    (hTail : tail = [] ∨ ∃ behind, tail = '*' :: '/' :: behind) : other.length ≤ body.length := by
  rcases List.append_eq_append_iff.mp hText with ⟨more, rfl, hMore⟩ | ⟨_, rfl, -⟩
  · match more with
    | [] => simp
    | [c] =>
        rcases hTail with rfl | ⟨behind, rfl⟩
        · cases hMore
        · cases (List.cons.inj (List.cons.inj hMore).2).1
    | c :: d :: ds =>
        obtain ⟨rfl, hRest⟩ := List.cons.inj hMore
        obtain ⟨rfl, -⟩ := List.cons.inj hRest
        exact absurd ⟨body, ds, by simp⟩ hOther
  · simp

theorem BlockComment.unique {comment' rest' : List Char} (h : BlockComment comment rest)
    (h' : BlockComment comment' rest') (hText : comment ++ rest = comment' ++ rest') :
    comment = comment' ∧ rest = rest' := by
  cases h with
  | @closed body rest hBody =>
      cases h' with
      | @closed body' rest' hBody' =>
          replace hText : body ++ '*' :: '/' :: rest = body' ++ '*' :: '/' :: rest' := by simpa using hText
          have hLength : body.length = body'.length := Nat.le_antisymm
            (body_length_le hBody hText.symm (.inr ⟨_, rfl⟩)) (body_length_le hBody' hText (.inr ⟨_, rfl⟩))
          obtain ⟨rfl, hRest⟩ := List.append_inj hText hLength
          exact ⟨rfl, by simpa using hRest⟩
      | @unclosed body' hBody' =>
          replace hText : body ++ '*' :: '/' :: rest = body' := by simpa using hText
          exact absurd ⟨body, rest, by simpa using hText⟩ hBody'
  | @unclosed body hBody =>
      cases h' with
      | @closed body' rest' hBody' =>
          replace hText : body = body' ++ '*' :: '/' :: rest' := by simpa using hText
          exact absurd ⟨body', rest', by simpa using hText.symm⟩ hBody
      | unclosed => exact ⟨by simpa using hText, rfl⟩

theorem BlockComment.opens (h : BlockComment comment rest) :
    ∃ behind, comment ++ rest = '/' :: '*' :: behind := by
  cases h with
  | closed => exact ⟨_, rfl⟩
  | unclosed => exact ⟨_, rfl⟩

theorem BlockComment.length_pos (h : BlockComment comment rest) : 0 < comment.length := by
  cases h with
  | closed => exact Nat.succ_pos _
  | unclosed => exact Nat.succ_pos _

/-- A comment opens at the first place at which one can. -/
theorem FirstComment.length_le {code' comment' rest' : List Char} (h : FirstComment code comment rest)
    (h' : FirstComment code' comment' rest')
    (hText : code ++ (comment ++ rest) = code' ++ (comment' ++ rest')) : code'.length ≤ code.length := by
  obtain ⟨behind, hOpens⟩ := h.comment.opens
  exact Nat.le_of_not_lt fun hShort => h.bare (h'.none code behind (by rw [← hText, hOpens]) hShort)

theorem FirstComment.unique {code' comment' rest' : List Char} (h : FirstComment code comment rest)
    (h' : FirstComment code' comment' rest')
    (hText : code ++ (comment ++ rest) = code' ++ (comment' ++ rest')) :
    code = code' ∧ comment = comment' ∧ rest = rest' := by
  obtain ⟨rfl, hBehind⟩ :=
    List.append_inj hText (Nat.le_antisymm (h'.length_le h hText.symm) (h.length_le h' hText))
  exact ⟨rfl, h.comment.unique h'.comment hBehind⟩

/-- Every text is without comments or has a first one. -/
theorem noComment_or_first (text : List Char) :
    NoComment text [] ∨ ∃ code comment rest, text = code ++ (comment ++ rest) ∧
      FirstComment code comment rest := by
  rcases noCommentIn_or_opens .code nofun text with hNone | ⟨code, behind, rfl, hNone, hBare⟩
  · exact .inl (noCommentIn_code.mp hNone)
  · obtain ⟨comment, rest, hText, hComment⟩ := exists_blockComment behind
    refine .inr ⟨code, comment, rest, by rw [hText], ⟨?_, mt shieldedIn_code.mpr hBare, hComment⟩⟩
    rw [← hText]
    exact noCommentIn_code.mp hNone

/-- NoComment text has no comments. -/
theorem NoComment.not_commented (h : NoComment text []) (i : Nat) : ¬ Commented text i := by
  have hNever {code comment rest : List Char} (hText : text = code ++ (comment ++ rest))
      (hFirst : FirstComment code comment rest) : False := by
    obtain ⟨behind, hOpens⟩ := hFirst.comment.opens
    refine hFirst.bare (h code behind (by rw [List.append_nil, hText, hOpens]) ?_)
    rw [hText, hOpens]
    simp
  intro hIn
  cases hIn with
  | within hFirst => exact hNever rfl hFirst
  | behind hFirst => exact hNever rfl hFirst

/-- Commented is what lies in the first comment or, counted from behind it, in a later one. -/
theorem FirstComment.commented_iff (h : FirstComment code comment rest) (i : Nat) :
    Commented (code ++ (comment ++ rest)) i ↔
      (Text.width code ≤ i ∧ i < Text.width code + Text.width comment) ∨
        (Text.width code + Text.width comment ≤ i ∧
          Commented rest (i - (Text.width code + Text.width comment))) := by
  constructor
  · intro hIn
    generalize hText : code ++ (comment ++ rest) = text at hIn
    cases hIn with
    | within h' hFrom hTo =>
        obtain ⟨rfl, rfl, rfl⟩ := h.unique h' hText
        exact .inl ⟨hFrom, hTo⟩
    | @behind _ _ _ j h' hRest =>
        obtain ⟨rfl, rfl, rfl⟩ := h.unique h' hText
        exact .inr ⟨Nat.le_add_right _ _, by rwa [Nat.add_sub_cancel_left]⟩
  · rintro (⟨hFrom, hTo⟩ | ⟨hFrom, hRest⟩)
    · exact .within h hFrom hTo
    · have hBehind := Commented.behind h hRest
      rwa [Nat.add_sub_cancel' hFrom] at hBehind

/-- Blanking turns the bytes in comments into blanks and leaves the others. -/
theorem getElem?_blankComments (text : List Char) (i : Nat) :
    (Commented text i → (Text.bytes (blankComments .code text))[i]? =
      (Text.bytes text)[i]?.map Text.blankByte) ∧
    (¬ Commented text i → (Text.bytes (blankComments .code text))[i]? = (Text.bytes text)[i]?) := by
  induction hn : text.length using Nat.strongRecOn generalizing text i with
  | ind n ih =>
      subst hn
      rcases noComment_or_first text with hNone | ⟨code, comment, rest, rfl, hFirst⟩
      · have hSame := blankComments_noComment (by decide) (noCommentIn_code.mpr hNone) (.inl rfl)
        rw [List.append_nil] at hSame
        rw [hSame]
        exact ⟨fun h => absurd h (hNone.not_commented i), fun _ => by simp [blankComments]⟩
      have hShorter : rest.length < (code ++ (comment ++ rest)).length := by
        rw [List.length_append, List.length_append]
        have hSome := hFirst.comment.length_pos
        omega
      rw [hFirst.commented_iff, hFirst.blankComments_eq, Text.bytes_append, Text.bytes_append,
        Text.bytes_flatMap_blanks, Text.bytes_append, Text.bytes_append]
      simp only [List.getElem?_append, List.getElem?_map, List.length_map, Text.length_bytes]
      -- The byte lies in the code, in the comment or behind it.
      rcases Nat.lt_or_ge i (Text.width code) with hCode | hCode
      · rw [if_pos hCode, if_pos hCode]
        exact ⟨fun h => by omega, fun _ => rfl⟩
      rw [if_neg (Nat.not_lt.mpr hCode), if_neg (Nat.not_lt.mpr hCode)]
      rcases Nat.lt_or_ge i (Text.width code + Text.width comment) with hComment | hComment
      · have hInside : i - Text.width code < Text.width comment := by omega
        rw [if_pos hInside, if_pos hInside]
        exact ⟨fun _ => rfl, fun h => absurd (.inl ⟨hCode, hComment⟩) h⟩
      · have hBeyond : ¬ i - Text.width code < Text.width comment := by omega
        obtain ⟨hIn, hOut⟩ := ih _ hShorter rest (i - (Text.width code + Text.width comment)) rfl
        rw [if_neg hBeyond, if_neg hBeyond, Nat.sub_sub]
        refine ⟨fun h => hIn ?_, fun h => hOut fun hLater => h (.inr ⟨hComment, hLater⟩)⟩
        rcases h with hHere | hLater
        · omega
        · exact hLater.2

/-! Blanked text holds no comment, and text in normal form is lowered. -/

theorem head?_blankComments (hZone : zone ≠ .block) (hHead : cs.head? ≠ some '/') :
    (blankComments zone cs).head? = cs.head? := by
  cases cs with
  | nil => simp [blankComments]
  | cons c cs =>
      have hOpening : c = '/' → cs.head? = some '*' → zone = .line := by
        rintro rfl
        exact absurd rfl hHead
      rw [blankComments_cons hZone hOpening]
      rfl

theorem blankComments_blanks (c : Char) (cs : List Char) :
    blankComments .code (Text.blanks c ++ cs) = Text.blanks c ++ blankComments .code cs := by
  have hBlank (n : Nat) : blankComments .code (List.replicate n ' ' ++ cs) =
      List.replicate n ' ' ++ blankComments .code cs := by
    induction n with
    | zero => rfl
    | succ n ih => rw [List.replicate_succ, List.cons_append, List.cons_append, ← ih]; rfl
  unfold Text.blanks
  split
  · rfl
  · exact hBlank _

/-- Blanking is done in one pass. What was inside a comment is read as code. -/
theorem blankComments_again (zone : CommentZone) (text : List Char) :
    blankComments (if zone = .block then .code else zone) (blankComments zone text) =
      blankComments zone text := by
  fun_induction blankComments zone text with
  | case1 => simp [blankComments]
  | case2 rest ih => exact congrArg (' ' :: ' ' :: ·) ih
  | case3 c cs _ ih => exact (blankComments_blanks c _).trans (congrArg (Text.blanks c ++ ·) ih)
  | case4 zone cs hZone ih =>
      have hOpening : '\n' = '/' → (blankComments .code cs).head? = some '*' → zone = .line :=
        fun hSlash => absurd hSlash (by decide)
      rw [if_neg hZone, blankComments_cons hZone hOpening]
      exact congrArg ('\n' :: ·) ih
  | case5 rest hZone _ ih => exact congrArg (' ' :: ' ' :: ·) ih
  | case6 zone hZone rest hCode _ ih =>
      obtain rfl : zone = .line := by cases zone <;> simp_all
      rw [if_neg hZone, blankComments_cons hZone fun _ _ => rfl]
      rw [if_neg hZone] at ih
      have hLine (next : Option Char) : CommentZone.line.after '/' next = .line := by
        simp [CommentZone.after]
      rw [hLine, ih]
  | case7 zone hZone rest _ ih =>
      have hLine : CommentZone.line ≠ .block := by decide
      have hHead : (blankComments .line ('/' :: rest)).head? = some '/' := by
        rw [blankComments_cons hLine fun _ _ => rfl]
        rfl
      rw [if_neg hZone, blankComments_cons hZone (by simp [hHead]), hHead]
      exact congrArg ('/' :: ·) ih
  | case8 zone hZone c cs hOpens hSlashes hNewline ih =>
      have hHead (hSlash : c = '/') : (blankComments zone cs).head? = cs.head? := by
        refine head?_blankComments hZone fun hNext => ?_
        obtain ⟨rest, hRest⟩ := List.head?_eq_some_iff.mp hNext
        exact hSlashes rest hSlash hRest
      have hOpening : c = '/' → (blankComments zone cs).head? = some '*' → zone = .line := by
        intro hSlash hStar
        obtain ⟨rest, hRest⟩ := List.head?_eq_some_iff.mp ((hHead hSlash).symm.trans hStar)
        exact (hOpens rest hSlash hRest).elim
      have hSame : ¬ (c = '/' ∧ (blankComments zone cs).head? = some '/') := by
        rintro ⟨hSlash, hNext⟩
        obtain ⟨rest, hRest⟩ := List.head?_eq_some_iff.mp ((hHead hSlash).symm.trans hNext)
        exact hSlashes rest hSlash hRest
      rw [if_neg hZone] at ih ⊢
      rw [blankComments_cons hZone hOpening, CommentZone.after, if_neg hNewline, if_neg hSame, ih]

theorem mem_blankComments {zone : CommentZone} {text : List Char} {c : Char}
    (h : c ∈ blankComments zone text) : c ∈ text ∨ c = ' ' := by
  fun_induction blankComments zone text <;> grind

theorem return_not_mem (cs : List Char) : '\r' ∉ unifyNewlines cs := by
  fun_induction unifyNewlines cs <;> simp_all [eq_comm]

theorem unifyNewlines_eq (h : '\r' ∉ cs) : unifyNewlines cs = cs := by
  fun_induction unifyNewlines cs <;> simp_all

/-- The text of a script before its comments are blanked. -/
def lowered (raw : String) : List Char := Text.lowerFrom [] (unifyNewlines raw.toList)

/-- The normal form of a text is its own normal form. -/
theorem normalize_again (raw : String) : normalize (String.ofList (normalize raw)) = normalize raw := by
  have hChar (c : Char) (hc : c ∈ normalize raw) : Text.Lowered c ∧ c ≠ '\r' := by
    rcases mem_blankComments hc with hText | rfl
    · obtain ⟨hLowered, hReturn⟩ := Text.lowered_of_mem_lowerFrom hText
      exact ⟨hLowered, fun h => return_not_mem _ (hReturn h)⟩
    · exact ⟨by decide, by decide⟩
  calc normalize (String.ofList (normalize raw))
    _ = blankComments .code (Text.lowerFrom [] (unifyNewlines (normalize raw))) := by
      rw [normalize, String.toList_ofList]
    _ = blankComments .code (normalize raw) := by
      rw [unifyNewlines_eq fun h => (hChar _ h).2 rfl, Text.lowerFrom_lowered fun c hc => (hChar c hc).1]
    _ = normalize raw := blankComments_again .code _

/-- The normal form is the lowered text with blanks in the place of block comments: as many bytes, with
newlines at the same offsets, the same bytes outside comments, and blanks at the other bytes inside. Taking
the normal form again changes nothing. -/
theorem normalize_blanks_comments (raw : String) :
    (Text.bytes (normalize raw)).length = (Text.bytes (lowered raw)).length ∧
    (∀ i : Nat, (Text.bytes (normalize raw))[i]? = some '\n'.toUInt8 ↔
      (Text.bytes (lowered raw))[i]? = some '\n'.toUInt8) ∧
    (∀ i : Nat, ¬ Commented (lowered raw) i →
      (Text.bytes (normalize raw))[i]? = (Text.bytes (lowered raw))[i]?) ∧
    (∀ (i : Nat) (b : UInt8), Commented (lowered raw) i → (Text.bytes (lowered raw))[i]? = some b →
      b ≠ '\n'.toUInt8 → (Text.bytes (normalize raw))[i]? = some ' '.toUInt8) ∧
    normalize (String.ofList (normalize raw)) = normalize raw := by
  have hByte (i : Nat) := getElem?_blankComments (lowered raw) i
  simp only [show blankComments .code (lowered raw) = normalize raw from rfl] at hByte
  refine ⟨?_, fun i => ?_, fun i => (hByte i).2, fun i b hIn hHere hOther => ?_, normalize_again raw⟩
  · rw [Text.length_bytes, Text.length_bytes]
    exact width_blankComments .code _
  · by_cases hIn : Commented (lowered raw) i
    · rw [(hByte i).1 hIn, Option.map_eq_some_iff]
      constructor
      · rintro ⟨b, hHere, hBlank⟩
        exact Text.blankByte_eq_newline.mp hBlank ▸ hHere
      · exact fun hHere => ⟨_, hHere, rfl⟩
    · rw [(hByte i).2 hIn]
  · rw [(hByte i).1 hIn, hHere, Option.map_some, Text.blankByte, if_neg hOther]

-- The slash of an opening does not close, and a remark shields the slash that ends its opening.
example : blankComments .code "a /*/ b */ //* c".toList = "a          //* c".toList := by cbv

end Script

end EntityScript
