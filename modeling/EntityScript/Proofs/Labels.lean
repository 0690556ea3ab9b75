import EntityScript.Proofs.Advance
import EntityScript.Proofs.BlockComments
import EntityScript.Proofs.QuotedText
import Mathlib.Data.List.Induction

/-! Labels, byte by byte. A label is set by a whole word of the text outside remarks, the marker with the
label behind it; the first such word is the one that is found and jumped to. No character has a byte of
another inside, so that the words of the bytes are those of the characters. -/
namespace EntityScript

namespace Text

/-- Two characters that texts begin with are the same if the bytes of the texts are. -/
theorem char_unique {c d : Char} {bs cs : List UInt8}
    (h : String.utf8EncodeChar c ++ bs = String.utf8EncodeChar d ++ cs) : c = d := by
  have hDecode (c : Char) (bs : List UInt8) :
      (String.utf8EncodeChar c ++ bs).toByteArray.utf8DecodeChar? 0 = some c := by
    rw [List.toByteArray_append]
    exact ByteArray.utf8DecodeChar?_utf8EncodeChar_append
  have hSame := hDecode c bs
  rw [h, hDecode] at hSame
  exact (Option.some.inj hSame).symm

theorem bytes_ne_nil {cs : List Char} (h : cs ≠ []) : bytes cs ≠ [] := by
  obtain ⟨c, cs, rfl⟩ := List.exists_cons_of_ne_nil h
  intro hNone
  exact String.utf8EncodeChar_ne_nil (List.append_eq_nil_iff.mp hNone).1

/-- What begins with the bytes of a text begins with the text. -/
theorem exists_append_of_bytes {cs ds : List Char} {bs : List UInt8} (h : bytes cs = bytes ds ++ bs) :
    ∃ rest, cs = ds ++ rest ∧ bytes rest = bs := by
  induction ds generalizing cs with
  | nil => exact ⟨cs, rfl, h⟩
  | cons d ds ih =>
      cases cs with
      | nil => exact absurd (List.append_eq_nil_iff.mp h.symm).1 (bytes_ne_nil (List.cons_ne_nil d ds))
      | cons c cs =>
          rw [bytes_cons, bytes_cons, List.append_assoc] at h
          obtain rfl := char_unique h
          obtain ⟨rest, rfl, hRest⟩ := ih (List.append_cancel_left h)
          exact ⟨rest, rfl, hRest⟩

/-- No character begins inside the bytes of another. -/
theorem starts_of_bytes {c d : Char} {b : UInt8} {before bs cs : List UInt8}
    (h : String.utf8EncodeChar c ++ bs = b :: before ++ (String.utf8EncodeChar d ++ cs)) :
    ∃ further, b :: before = String.utf8EncodeChar c ++ further ∧
      bs = further ++ (String.utf8EncodeChar d ++ cs) := by
  rcases List.append_eq_append_iff.mp h with hAfter | ⟨inner, hChar, hRest⟩
  · exact hAfter
  cases inner with
  | nil => exact ⟨[], hChar.symm ▸ by simp, by simpa using hRest.symm⟩
  | cons i inner =>
      exfalso
      have hPlace : (b :: before).length < (String.utf8EncodeChar c).length := by
        rw [hChar]
        simp
      have hFirst : (String.utf8EncodeChar c)[(b :: before).length] = i := by
        simp [hChar]
      obtain ⟨first, others, hEncoded⟩ :=
        List.exists_cons_of_ne_nil (String.utf8EncodeChar_ne_nil (c := d))
      have hInside := UInt8.isUTF8FirstByte_getElem_zero_utf8EncodeChar (c := d)
      rw [hEncoded] at hRest
      simp only [hEncoded, List.getElem_cons_zero] at hInside
      obtain rfl : first = i := (List.cons.inj hRest).1
      rw [← hFirst, UInt8.isUTF8FirstByte_getElem_utf8EncodeChar] at hInside
      cases hInside

/-- Where the bytes of a text stand, the text does. -/
theorem exists_split_of_bytes {cs ds : List Char} {before after : List UInt8} (hSome : ds ≠ [])
    (h : bytes cs = before ++ (bytes ds ++ after)) :
    ∃ front back, cs = front ++ ds ++ back ∧ bytes front = before ∧ bytes back = after := by
  induction cs generalizing before with
  | nil =>
      have hNone := (List.append_eq_nil_iff.mp (List.append_eq_nil_iff.mp h.symm).2).1
      exact absurd hNone (bytes_ne_nil hSome)
  | cons c cs ih =>
      cases before with
      | nil =>
          obtain ⟨back, hText, hBack⟩ := exists_append_of_bytes h
          exact ⟨[], back, hText, rfl, hBack⟩
      | cons b before =>
          obtain ⟨d, ds, rfl⟩ := List.exists_cons_of_ne_nil hSome
          rw [bytes_cons, bytes_cons, List.append_assoc] at h
          obtain ⟨further, hFront, hRest⟩ := starts_of_bytes h
          have hBehind : bytes cs = further ++ (bytes (d :: ds) ++ after) := by
            rw [hRest, bytes_cons, List.append_assoc]
          obtain ⟨front, back, rfl, rfl, hBack⟩ := ih hBehind
          exact ⟨c :: front, back, rfl, hFront.symm, hBack⟩

end Text

namespace Script

/-! What a word is, byte by byte. -/

theorem isBreak_of_mem {b : UInt8} {c : Char} (h : b ∈ String.utf8EncodeChar c) :
    isBreak c = true ↔ b ≤ ' '.toUInt8 := by
  have hBlank : ' '.toUInt8.toNat = 32 := by decide
  have hChar : isBreak c = true ↔ c.toNat ≤ 32 := by
    rw [isBreak, decide_eq_true_eq]
    exact UInt32.le_iff_toNat_le
  rw [hChar, UInt8.le_iff_toNat_le, hBlank]
  rcases Text.toNat_of_mem h with hSame | hBeyond
  · rw [hSame]
  · omega

theorem unbroken_iff (cs : List Char) :
    Unbroken cs ↔ ∀ b ∈ Text.bytes cs, ' '.toUInt8 < b := by
  have hByte {b : UInt8} {c : Char} (h : b ∈ String.utf8EncodeChar c) :
      isBreak c = false ↔ ' '.toUInt8 < b := by
    rw [← Bool.not_eq_true, isBreak_of_mem h, UInt8.not_le]
  simp only [Text.bytes, List.mem_flatMap]
  constructor
  · rintro hWord b ⟨c, hc, hb⟩
    exact (hByte hb).mp (hWord c hc)
  · intro hWord c hc
    obtain ⟨b, hb⟩ := List.exists_mem_of_ne_nil _ (String.utf8EncodeChar_ne_nil (c := c))
    exact (hByte hb).mpr (hWord b ⟨c, hc, hb⟩)

theorem head_bytes (cs : List Char) :
    cs.head?.all isBreak = true ↔ ∀ b ∈ (Text.bytes cs).head?, b ≤ ' '.toUInt8 := by
  cases cs with
  | nil => simp [Text.bytes]
  | cons c cs =>
      obtain ⟨b, bs, hEncoded⟩ := List.exists_cons_of_ne_nil (String.utf8EncodeChar_ne_nil (c := c))
      have hMem : b ∈ String.utf8EncodeChar c := hEncoded ▸ List.mem_cons_self
      simp [hEncoded, isBreak_of_mem hMem]

theorem last_bytes (cs : List Char) :
    cs.getLast?.all isBreak = true ↔ ∀ b ∈ (Text.bytes cs).getLast?, b ≤ ' '.toUInt8 := by
  rcases List.eq_nil_or_concat cs with rfl | ⟨cs, c, rfl⟩
  · simp [Text.bytes]
  · obtain ⟨bs, b, hEncoded⟩ :=
      (List.eq_nil_or_concat (String.utf8EncodeChar c)).resolve_left String.utf8EncodeChar_ne_nil
    have hMem : b ∈ String.utf8EncodeChar c := by simp [hEncoded]
    have hLast : Text.bytes (cs ++ [c]) = Text.bytes cs ++ bs ++ [b] := by
      rw [Text.bytes_append, Text.bytes_cons, hEncoded]
      simp [Text.bytes]
    simp [hLast, isBreak_of_mem hMem]

theorem hiddenBehind_concat (before : Option Char) (hidden : Bool) (cs : List Char) (c : Char) :
    hiddenBehind before hidden (cs ++ [c]) = (c ≠ '\n' &&
      (hiddenBehind before hidden cs || (cs.getLast?.or before = some '/' && c = '/'))) := by
  induction cs generalizing before hidden with
  | nil => rfl
  | cons d cs ih =>
      rw [List.cons_append, hiddenBehind, ih, hiddenBehind, List.getLast?_cons]
      cases cs.getLast? <;> rfl

/-- Two slashes hide what follows as far as the line goes. -/
theorem hiddenBehind_iff (cs : List Char) :
    hiddenBehind none false cs = true ↔
      ∃ front back, cs = front ++ ['/', '/'] ++ back ∧ '\n' ∉ back := by
  induction cs using List.reverseRecOn with
  | nil => simp [hiddenBehind]
  | append_singleton cs c ih =>
      rw [hiddenBehind_concat, Bool.and_eq_true, Bool.or_eq_true, ih]
      simp only [decide_eq_true_eq, Bool.and_eq_true, Option.or_none]
      constructor
      · rintro ⟨hLine, ⟨front, back, rfl, hBack⟩ | ⟨hSlash, rfl⟩⟩
        · exact ⟨front, back ++ [c], by simp, by simp [hBack, Ne.symm hLine]⟩
        · obtain ⟨front, rfl⟩ := List.getLast?_eq_some_iff.mp hSlash
          exact ⟨front, [], by simp, List.not_mem_nil⟩
      · rintro ⟨front, back, hText, hBack⟩
        rcases List.eq_nil_or_concat back with rfl | ⟨back, d, rfl⟩
        · have hSplit : cs ++ [c] = front ++ ['/'] ++ ['/'] := by simpa using hText
          obtain ⟨rfl, hc⟩ := List.append_inj' hSplit rfl
          obtain rfl : c = '/' := by simpa using hc
          exact ⟨by decide, .inr ⟨by simp, rfl⟩⟩
        · have hSplit : cs ++ [c] = front ++ ['/', '/'] ++ back ++ [d] := by simpa using hText
          obtain ⟨rfl, hc⟩ := List.append_inj' hSplit rfl
          obtain rfl : c = d := by simpa using hc
          simp only [List.concat_eq_append, List.mem_append, List.mem_singleton, not_or] at hBack
          exact ⟨Ne.symm hBack.2, .inl ⟨front, back, rfl, hBack.1⟩⟩

/-- Two slashes stand on the line before the place behind these bytes. -/
def InRemark (before : List UInt8) : Prop :=
  ∃ front back, before = front ++ (Text.bytes ['/', '/'] ++ back) ∧ '\n'.toUInt8 ∉ back

theorem inRemark_iff (cs : List Char) :
    InRemark (Text.bytes cs) ↔ hiddenBehind none false cs = true := by
  have hNewline (back : List Char) : '\n'.toUInt8 ∈ Text.bytes back ↔ '\n' ∈ back := by
    rw [Text.bytes, List.mem_flatMap]
    constructor
    · rintro ⟨c, hc, hByte⟩
      rwa [Text.eq_newline_of_mem hByte] at hc
    · exact fun h => ⟨'\n', h, by decide⟩
  rw [hiddenBehind_iff]
  constructor
  · rintro ⟨front, back, hText, hBack⟩
    obtain ⟨front, back, rfl, rfl, rfl⟩ := Text.exists_split_of_bytes (by simp) hText
    exact ⟨front, back, rfl, fun h => hBack ((hNewline back).mpr h)⟩
  · rintro ⟨front, back, rfl, hBack⟩
    exact ⟨Text.bytes front, Text.bytes back, by simp only [Text.bytes_append, List.append_assoc],
      fun h => hBack ((hNewline back).mp h)⟩

/-! The words that the search for a mark finds. -/

/-- The mark is the word at a place and is not hidden there. -/
def Stands (mark : List Char) (before : Option Char) (hidden : Bool) (rest : List Char) : Prop :=
  before.all isBreak = true ∧ hidden = false ∧ frontWord rest = mark

section Search

variable {mark cs front rest : List Char} {before : Option Char} {hidden : Bool} {pos p : Nat}
  (hMark : Unbroken mark)

include hMark

theorem headerFrom_step (c : Char) (cs : List Char) :
    headerFrom mark before hidden pos (c :: cs) =
      if before.all isBreak && (!hidden && decide (frontWord (c :: cs) = mark)) then
        some (pos + Text.width mark)
      else headerFrom mark (some c) (c ≠ '\n' && (hidden || (before = some '/' && c = '/')))
        (pos + c.utf8Size) cs := by
  rw [headerFrom, Bool.and_assoc (_ && _), isPrefixOf_word hMark, Bool.and_assoc]

/-- What the search finds stands in the text. -/
theorem stands_of_headerFrom (h : headerFrom mark before hidden pos cs = some p) :
    ∃ front rest, cs = front ++ rest ∧
      Stands mark (front.getLast?.or before) (hiddenBehind before hidden front) rest ∧
      p = pos + Text.width front + Text.width mark := by
  induction cs generalizing before hidden pos with
  | nil => cases h
  | cons c cs ih =>
      rw [headerFrom_step hMark] at h
      split at h
      · rename_i hHere
        cases h
        exact ⟨[], c :: cs, rfl, by simpa [Stands, hiddenBehind] using hHere, rfl⟩
      · obtain ⟨front, rest, rfl, hStands, rfl⟩ := ih h
        refine ⟨c :: front, rest, rfl, ?_, by rw [Text.width_cons, Nat.add_assoc pos]⟩
        rw [hiddenBehind, List.getLast?_cons]
        cases hLast : front.getLast? <;> simpa [hLast] using hStands

/-- Where the mark stands in the text, the search has found it or one before it. -/
theorem headerFrom_of_stands (pos : Nat) (hSome : mark ≠ [])
    (h : Stands mark (front.getLast?.or before) (hiddenBehind before hidden front) rest) :
    ∃ q, headerFrom mark before hidden pos (front ++ rest) = some q ∧
      q ≤ pos + Text.width front + Text.width mark := by
  rw [headerFrom_append]
  cases hEarlier : markWithin mark before hidden pos rest front with
  | some q =>
      have hBounds := markWithin_bounds hEarlier
      exact ⟨q, rfl, by omega⟩
  | none =>
      obtain ⟨hBefore, hShown, hWord⟩ := h
      cases rest with
      | nil => exact absurd hWord.symm hSome
      | cons c rest =>
          refine ⟨pos + Text.width front + Text.width mark, ?_, Nat.le_refl _⟩
          rw [Option.none_or, headerFrom_step hMark]
          simp [hBefore, hShown, hWord]

end Search

/-! Labels. -/

/-- A whole word of the text, with the bytes before it. -/
structure WordBehind (s : Script) (before word : List UInt8) : Prop where
  /-- No byte of the word is a blank or below it. -/
  solid : ∀ b ∈ word, ' '.toUInt8 < b
  /-- A break stands before the word, or the text begins there. -/
  begins : ∀ b ∈ before.getLast?, b ≤ ' '.toUInt8
  /-- A break stands behind the word, or the text ends there. -/
  ends : ∃ after, Text.bytes s.text = before ++ (word ++ after) ∧ ∀ b ∈ after.head?, b ≤ ' '.toUInt8

/-- The word behind these bytes sets the label. -/
structure Sets (s : Script) (label : String) (before : List UInt8) : Prop where
  named : label ≠ ""
  word : s.WordBehind before (Text.bytes ('>' :: '>' :: label.toList))
  shown : ¬InRemark before

theorem frontWord_append {word rest : List Char} (h : Unbroken word)
    (hRest : rest.head?.all isBreak = true) : frontWord (word ++ rest) = word := by
  have hWord : ∀ c ∈ word, (!isBreak c) = true := fun c hc => by simp [h c hc]
  rw [frontWord, List.takeWhile_append_of_pos hWord]
  cases rest with
  | nil => simp
  | cons c rest =>
      have hBreak : isBreak c = true := hRest
      simp [hBreak]

theorem exists_frontWord (cs : List Char) :
    ∃ rest, cs = frontWord cs ++ rest ∧ rest.head?.all isBreak = true := by
  refine ⟨cs.dropWhile (!isBreak ·), (List.takeWhile_append_dropWhile).symm, ?_⟩
  have hHead := List.head?_dropWhile_not (!isBreak ·) cs
  cases hRest : (cs.dropWhile (!isBreak ·)).head? with
  | none => rfl
  | some c => simpa [hRest] using hHead

theorem unbroken_mark {name : List Char} (h : Unbroken name) : Unbroken ('>' :: '>' :: name) :=
  List.forall_mem_cons.mpr ⟨by decide, List.forall_mem_cons.mpr ⟨by decide, h⟩⟩

/-- Where a label is set, as the search meets it. -/
theorem sets_iff {s : Script} {label : String} {before : List UInt8} :
    s.Sets label before ↔ label ≠ "" ∧ Unbroken label.toList ∧
      ∃ front rest, s.text = front ++ rest ∧ Text.bytes front = before ∧
        Stands ('>' :: '>' :: label.toList) (front.getLast?.or none) (hiddenBehind none false front)
          rest := by
  constructor
  · rintro ⟨hNamed, ⟨hSolid, hBegins, after, hText, hEnds⟩, hShown⟩
    have hMark := (unbroken_iff _).mpr hSolid
    obtain ⟨front, back, hSplit, rfl, rfl⟩ := Text.exists_split_of_bytes (List.cons_ne_nil _ _) hText
    have hWord := frontWord_append hMark ((head_bytes back).mpr hEnds)
    refine ⟨hNamed, fun c hc => hMark c (by simp [hc]), front, _, by rw [hSplit, List.append_assoc],
      rfl, ?_, ?_, hWord⟩
    · rw [Option.or_none]
      exact (last_bytes front).mpr hBegins
    · exact Bool.eq_false_iff.mpr fun h => hShown ((inRemark_iff front).mpr h)
  · rintro ⟨hNamed, hUnbroken, front, rest, hText, rfl, hBegins, hShown, hWord⟩
    obtain ⟨after, hRest, hEnds⟩ := exists_frontWord rest
    rw [hWord] at hRest
    rw [Option.or_none] at hBegins
    refine ⟨hNamed, ⟨(unbroken_iff _).mp (unbroken_mark hUnbroken), (last_bytes front).mp hBegins,
      Text.bytes after, ?_, (head_bytes after).mp hEnds⟩, fun h => ?_⟩
    · rw [hText, hRest, Text.bytes_append, Text.bytes_append]
    · exact Bool.false_ne_true (hShown.symm.trans ((inRemark_iff front).mp h))

/-- No word that is read has a break in it. -/
theorem unbroken_of_mem_runsFrom {current : Option Run} {before : Option Char} {hidden : Bool} {pos : Nat}
    {cs : List Char} {r : Run} (hCurrent : ∀ run ∈ current, Unbroken run.word)
    (h : r ∈ runsFrom current before hidden pos cs) : Unbroken r.word := by
  induction cs generalizing current before hidden pos with
  | nil => exact hCurrent r (Option.mem_toList.mp h)
  | cons c cs ih =>
      rw [runsFrom] at h
      dsimp only at h
      split at h
      · rcases List.mem_append.mp h with hHere | hLater
        · exact hCurrent r (Option.mem_toList.mp hHere)
        · exact ih (by simp) hLater
      · rename_i hSolid
        refine ih ?_ h
        rintro run ⟨⟩
        have hBegun : Unbroken (current.getD ⟨pos, hidden, []⟩).word := by
          cases current with
          | none => exact fun _ hNone => absurd hNone List.not_mem_nil
          | some run => exact hCurrent run rfl
        intro d hd
        rcases List.mem_append.mp hd with hd | hd
        · exact hBegun d hd
        · obtain rfl := List.mem_singleton.mp hd
          exact Bool.eq_false_iff.mpr hSolid

theorem label?_named {s : Script} {label : String} {p : Nat} (h : s.label? label = some p) :
    label ≠ "" ∧ Unbroken label.toList := by
  obtain ⟨before, after, hSplit, _⟩ := List.lookup_eq_some_iff.mp h
  have hMem : (label, p) ∈ s.runs.filterMap Run.label? := by simp [hSplit]
  obtain ⟨r, hRun, hLabel⟩ := List.mem_filterMap.mp hMem
  obtain ⟨hNamed, _, hWord, _⟩ := Run.label?_eq_some_iff.mp hLabel
  have hSolid := unbroken_of_mem_runsFrom (by simp) hRun
  rw [hWord] at hSolid
  exact ⟨hNamed, fun c hc => hSolid c (by simp [hc])⟩

/-- The first word that sets a label, with the bytes before it. -/
def FirstSets (s : Script) (label : String) (before : List UInt8) : Prop :=
  s.Sets label before ∧ ∀ other, s.Sets label other → before.length ≤ other.length

/-- The offset behind the word that sets a label. -/
def behindLabel (label : String) (before : List UInt8) : Nat :=
  (before ++ Text.bytes ('>' :: '>' :: label.toList)).length

theorem behindLabel_eq (label : String) (before : List UInt8) :
    behindLabel label before = before.length + Text.width ('>' :: '>' :: label.toList) := by
  rw [behindLabel, List.length_append, Text.length_bytes]

variable {s : Script} {label : String} {p : Nat} {before : List UInt8}

/-- A label that is set is found, behind the word that sets it or one before. -/
theorem Sets.exists_label? (h : s.Sets label before) :
    ∃ q, s.label? label = some q ∧ q ≤ behindLabel label before := by
  obtain ⟨hNamed, hUnbroken, front, rest, hText, rfl, hStands⟩ := sets_iff.mp h
  obtain ⟨q, hq, hBound⟩ :=
    headerFrom_of_stands (unbroken_mark hUnbroken) 0 (List.cons_ne_nil _ _) hStands
  refine ⟨q, by rw [label?_eq_headerFrom s hNamed hUnbroken, hText, hq], ?_⟩
  rw [behindLabel_eq, Text.length_bytes]
  omega

/-- A label that is found is set there. -/
theorem exists_sets_of_label? (h : s.label? label = some p) :
    ∃ before, s.Sets label before ∧ p = behindLabel label before := by
  obtain ⟨hNamed, hUnbroken⟩ := label?_named h
  rw [label?_eq_headerFrom s hNamed hUnbroken] at h
  obtain ⟨front, rest, hText, hStands, rfl⟩ := stands_of_headerFrom (unbroken_mark hUnbroken) h
  refine ⟨Text.bytes front, sets_iff.mpr ⟨hNamed, hUnbroken, front, rest, hText, rfl, hStands⟩, ?_⟩
  rw [behindLabel_eq, Text.length_bytes, Nat.zero_add]

theorem label?_eq_some_iff :
    s.label? label = some p ↔ ∃ before, s.FirstSets label before ∧ p = behindLabel label before := by
  constructor
  · intro h
    obtain ⟨before, hSets, rfl⟩ := exists_sets_of_label? h
    refine ⟨before, ⟨hSets, fun other hOther => ?_⟩, rfl⟩
    obtain ⟨q, hq, hBound⟩ := hOther.exists_label?
    obtain rfl := Option.some.inj (h.symm.trans hq)
    rw [behindLabel_eq, behindLabel_eq] at hBound
    omega
  · rintro ⟨before, ⟨hSets, hFirst⟩, rfl⟩
    obtain ⟨q, hq, hBound⟩ := hSets.exists_label?
    obtain ⟨other, hOther, rfl⟩ := exists_sets_of_label? hq
    have hEarly := hFirst other hOther
    have hSame : behindLabel label other = behindLabel label before := by
      rw [behindLabel_eq, behindLabel_eq] at hBound ⊢
      omega
    rw [hq, hSame]

theorem label?_eq_none_iff : s.label? label = none ↔ ∀ before, ¬s.Sets label before := by
  constructor
  · intro hNone before hSets
    obtain ⟨q, hq, _⟩ := hSets.exists_label?
    cases hNone.symm.trans hq
  · intro hNone
    refine Option.eq_none_iff_forall_ne_some.mpr fun p hp => ?_
    obtain ⟨before, hSets, _⟩ := exists_sets_of_label? hp
    exact hNone before hSets

/-- A jump names a label with or without the marker. -/
theorem labelName_of_plain {label word : String} (hPlain : ¬['>', '>'] <+: label.toList)
    (hWord : word = label ∨ word = ">>" ++ label) : Act.labelName word = label := by
  rcases hWord with rfl | rfl
  · unfold Act.labelName
    split
    · rename_i cs hMarked
      exact absurd ⟨cs, hMarked.symm⟩ hPlain
    · rfl
  · have hMarked : (">>" ++ label).toList = '>' :: '>' :: label.toList := by
      rw [String.toList_append]
      rfl
    simp only [Act.labelName, hMarked, String.ofList_toList]

theorem jump_eq (word : String) (subroutine : Bool) (inv : Invocation) (q : Progress) :
    Act.jump word subroutine inv q = match inv.script.label? (Act.labelName word) with
      | none => .ok false q
      | some target => .ok true { q with
          calls := if subroutine then ⟨Act.labelName word, q.pos⟩ :: q.calls else q.calls
          pos := target } := by
  rw [Act.jump, Act.invocation_bind]
  cases inv.script.label? (Act.labelName word) <;> rfl

/-- A label is found exactly where a word outside remarks is the marker with the label behind it, at the
end of the first such word. A jump to the label, with or without the marker, goes on there, and goes
nowhere if no word sets the label. -/
theorem labels_are_first_words (s : Script) (label : String) :
    (∀ p, s.label? label = some p ↔
      ∃ before, s.FirstSets label before ∧ p = behindLabel label before) ∧
    (¬['>', '>'] <+: label.toList → ∀ word, word = label ∨ word = ">>" ++ label →
      ∀ (subroutine : Bool) (inv : Invocation) (q : Progress),
        (∀ before, s.FirstSets label before →
          Act.jump word subroutine { inv with script := s } q = .ok true { q with
            calls := if subroutine then ⟨label, q.pos⟩ :: q.calls else q.calls
            pos := behindLabel label before }) ∧
        ((∀ before, ¬s.Sets label before) →
          Act.jump word subroutine { inv with script := s } q = .ok false q)) := by
  refine ⟨fun p => label?_eq_some_iff, fun hPlain word hWord subroutine inv q => ?_⟩
  have hName := labelName_of_plain hPlain hWord
  constructor
  · intro before hFirst
    have hLabel := label?_eq_some_iff.mpr ⟨before, hFirst, rfl⟩
    rw [jump_eq, hName]
    simp only [hLabel]
  · intro hNone
    have hLabel := label?_eq_none_iff.mpr hNone
    rw [jump_eq, hName]
    simp only [hLabel]

/-- A script that sets one label twice, and another in a remark. -/
def repeatedScript : Script := ⟨"repeated", ">>a\n set #x 1\n>>a\n set #x 2\n// >>b\n".toList⟩

/-- The first of two labels of one name is found and jumped to; the label in the remark is not. -/
theorem labels_are_first_words_repeated :
    (∃ before, repeatedScript.FirstSets "a" before ∧ 3 = behindLabel "a" before) ∧
    (∀ (inv : Invocation) (q : Progress),
      Act.jump ">>a" false { inv with script := repeatedScript } q = .ok true { q with pos := 3 }) ∧
    ∀ (inv : Invocation) (q : Progress),
      Act.jump "b" true { inv with script := repeatedScript } q = .ok false q := by
  obtain ⟨hFound, hJump⟩ := labels_are_first_words repeatedScript "a"
  obtain ⟨_, hLost⟩ := labels_are_first_words repeatedScript "b"
  have hFirst := (hFound 3).mp (by decide)
  refine ⟨hFirst, fun inv q => ?_, fun inv q => ?_⟩
  · obtain ⟨before, hSets, hEnd⟩ := hFirst
    have hThere := (hJump (by decide) ">>a" (.inr (by decide)) false inv q).1 before hSets
    rwa [← hEnd] at hThere
  · exact (hLost (by decide) "b" (.inl rfl) true inv q).2 (label?_eq_none_iff.mp (by decide))

end Script
end EntityScript
