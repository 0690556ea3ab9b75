import EntityScript.Proofs.BlockComments
import Mathlib.Data.List.TakeWhile
import Mathlib.Data.Nat.Count
import Mathlib.Data.Nat.Find
import Mathlib.Data.Prod.Lex
import Mathlib.Order.Monotone.Basic

/-! Lines and columns. The line of an offset counts the newlines in front of it, and the column the bytes from
where the line begins. Either moves on with every byte, a newline being the last byte of its line, so that
together they tell the offset and order as the offsets do. -/
namespace EntityScript.Script

variable {s : Script} {before cs : List Char} {c : Char} {i p q target : Nat}

/-- The byte at an offset is a newline. -/
def NewlineAt (s : Script) (i : Nat) : Prop := (Text.bytes s.text)[i]? = some '\n'.toUInt8

instance (s : Script) : DecidablePred s.NewlineAt := fun i =>
  inferInstanceAs (Decidable ((Text.bytes s.text)[i]? = some '\n'.toUInt8))

/-- The number of newlines in front of an offset. -/
def newlinesBefore (s : Script) (p : Nat) : Nat := Nat.count s.NewlineAt p

/-- The offset behind the last newline in front of an offset, or that of the beginning of the text. -/
def lineStart (s : Script) (p : Nat) : Nat := Nat.findGreatest (fun q => s.NewlineAt (q - 1)) p

/-- A line begins at `start`, where the text does or behind a newline, and still goes on at an offset. -/
structure LineFrom (s : Script) (start p : Nat) : Prop where
  le : start ≤ p
  front : start = 0 ∨ s.NewlineAt (start - 1)
  clear : ∀ i, start ≤ i → i < p → ¬ s.NewlineAt i

/-- The line and the column that an offset has by the newlines in front of it, both from one. -/
def position (s : Script) (p : Nat) : Nat × Nat := (1 + s.newlinesBefore p, 1 + (p - s.lineStart p))

theorem lineStart_le (s : Script) (p : Nat) : s.lineStart p ≤ p := Nat.findGreatest_le p

theorem newlinesBefore_newline (h : s.NewlineAt p) : s.newlinesBefore (p + 1) = s.newlinesBefore p + 1 := by
  rw [newlinesBefore, Nat.count_succ, if_pos h, newlinesBefore]

theorem newlinesBefore_stays (h : ¬ s.NewlineAt p) : s.newlinesBefore (p + 1) = s.newlinesBefore p := by
  rw [newlinesBefore, Nat.count_succ, if_neg h, newlinesBefore, Nat.add_zero]

theorem lineStart_newline (h : s.NewlineAt p) : s.lineStart (p + 1) = p + 1 := Nat.findGreatest_eq h

theorem lineStart_stays (h : ¬ s.NewlineAt p) : s.lineStart (p + 1) = s.lineStart p :=
  Nat.findGreatest_of_not h

theorem lineFrom_lineStart (s : Script) (p : Nat) : s.LineFrom (s.lineStart p) p where
  le := s.lineStart_le p
  front := by
    by_cases hStart : s.lineStart p = 0
    · exact .inl hStart
    · exact .inr (Nat.findGreatest_of_ne_zero (P := fun q => s.NewlineAt (q - 1)) rfl hStart)
  clear i hFrom hTo :=
    Nat.findGreatest_is_greatest (P := fun q => s.NewlineAt (q - 1)) (Nat.lt_succ_of_le hFrom) hTo

/-- Behind a newline comes the next line, and behind any other byte the next column. -/
theorem position_lt_succ (s : Script) (p : Nat) : toLex (s.position p) < toLex (s.position (p + 1)) := by
  rw [Prod.Lex.toLex_lt_toLex]
  by_cases hNewline : s.NewlineAt p
  · left
    simp only [position, newlinesBefore_newline hNewline]
    omega
  · right
    have hStart := s.lineStart_le p
    refine ⟨congrArg (1 + ·) (newlinesBefore_stays hNewline).symm, ?_⟩
    simp only [position, lineStart_stays hNewline]
    omega

theorem position_strictMono (s : Script) : StrictMono fun p => toLex (s.position p) :=
  strictMono_nat_of_lt_succ s.position_lt_succ

/-- Bytes other than newlines belong to the line that they follow on. -/
theorem newlines_clear (hLe : p ≤ q) (hClear : ∀ i, p ≤ i → i < q → ¬ s.NewlineAt i) :
    s.newlinesBefore q = s.newlinesBefore p ∧ s.lineStart q = s.lineStart p := by
  induction q, hLe using Nat.le_induction with
  | base => exact ⟨rfl, rfl⟩
  | succ q hLe ih =>
      obtain ⟨hCount, hStart⟩ := ih fun i hFrom hTo => hClear i hFrom (by omega)
      have hOther := hClear q hLe (Nat.lt_succ_self q)
      exact ⟨(newlinesBefore_stays hOther).trans hCount, (lineStart_stays hOther).trans hStart⟩

/-- A byte of a character is a newline if the character is. -/
theorem newlineAt_iff (hText : s.text = before ++ c :: cs) (hFrom : Text.width before ≤ i)
    (hTo : i < Text.width before + c.utf8Size) : s.NewlineAt i ↔ c = '\n' := by
  have hByte : (Text.bytes s.text)[i]? = (String.utf8EncodeChar c)[i - Text.width before]? := by
    rw [hText, Text.bytes_append, Text.bytes_cons, List.getElem?_append_right (by simpa using hFrom),
      Text.length_bytes, List.getElem?_append_left (by simp; omega)]
  rw [NewlineAt, hByte]
  constructor
  · intro hNewline
    exact Text.eq_newline_of_mem (List.mem_of_getElem? hNewline)
  · rintro rfl
    have hFirst : i - Text.width before = 0 := by
      have hOne : '\n'.utf8Size = 1 := rfl
      omega
    rw [hFirst]
    decide

/-- The walk over the text counts the newlines in front of the offset and keeps the place behind the last of
them. An offset inside a character is passed with the whole of it. -/
theorem locate_eq (hText : s.text = before ++ cs) (hTarget : target ≤ s.size) :
    locate target cs (Text.width before) (1 + s.newlinesBefore (min (Text.width before) target))
      (s.lineStart (min (Text.width before) target)) = s.position target := by
  induction cs generalizing before with
  | nil =>
      have hEnd : min (Text.width before) target = target := by
        rw [size, hText, List.append_nil] at hTarget
        exact Nat.min_eq_right hTarget
      rw [locate, hEnd, position, Nat.add_comm (target - _)]
  | cons c cs ih =>
      rw [locate]
      split
      · rename_i hFront
        have hRest : s.text = before ++ [c] ++ cs := by rw [hText, List.append_assoc]; rfl
        have hNext := ih hRest
        have hWidth : Text.width (before ++ [c]) = Text.width before + c.utf8Size := by simp
        have hByte {i : Nat} (hFrom : Text.width before ≤ i) (hTo : i < Text.width before + c.utf8Size) :=
          newlineAt_iff hText hFrom hTo
        have hHere : min (Text.width before) target = Text.width before := by omega
        rw [hWidth] at hNext
        rw [hHere]
        -- A newline is one byte. Any other character may be several, and the offset may be among them.
        split
        · rename_i hNewline
          have hOne : c.utf8Size = 1 := by rw [hNewline]; rfl
          have hAt := (hByte (Nat.le_refl _) (by omega)).mpr hNewline
          have hBehind : min (Text.width before + 1) target = Text.width before + 1 := by omega
          rw [hOne, hBehind, newlinesBefore_newline hAt, lineStart_newline hAt] at hNext
          exact hNext
        · rename_i hOther
          obtain ⟨hCount, hStart⟩ := newlines_clear (s := s) (p := Text.width before)
            (q := min (Text.width before + c.utf8Size) target) (by omega)
            fun i hFrom hTo => mt (hByte hFrom (by omega)).mp hOther
          rw [hCount, hStart] at hNext
          exact hNext
      · rename_i hBehind
        have hHere : min (Text.width before) target = target := by omega
        rw [hHere, position, Nat.add_comm (target - _)]

theorem lineColumn_eq (s : Script) (p : Nat) : s.lineColumn p = s.position (min p s.size) := by
  have hStart : s.lineStart 0 = 0 := Nat.findGreatest_zero
  have hText : s.text = [] ++ s.text := rfl
  have hWalk := locate_eq hText (Nat.min_le_right p s.size)
  rw [Text.width_nil, Nat.zero_min, hStart, newlinesBefore, Nat.count_zero] at hWalk
  exact hWalk

/-! The same from an index of the newlines. -/

/-- The offsets of the newlines in order. -/
def newlines (s : Script) : List Nat := (List.range s.size).filter s.NewlineAt

/-- The line and the column of an offset by the entries of an index that are below it. -/
def lookUp (index : List Nat) (p : Nat) : Nat × Nat :=
  let front := index.takeWhile (· < p)
  (front.length + 1, p - front.getLast?.elim 0 (· + 1) + 1)

theorem takeWhile_newlines (hp : p ≤ s.size) :
    s.newlines.takeWhile (· < p) = (List.range p).filter s.NewlineAt := by
  obtain ⟨k, hk⟩ := Nat.exists_eq_add_of_le hp
  have hFront : ∀ i ∈ (List.range p).filter s.NewlineAt, decide (i < p) = true := by
    intro i hi
    simpa using (List.mem_filter.mp hi).1
  have hBehind : (((List.range k).map (p + ·)).filter s.NewlineAt).takeWhile (· < p) = [] := by
    refine List.takeWhile_eq_nil_iff.mpr fun hSome => ?_
    obtain ⟨j, _, hj⟩ := List.mem_map.mp (List.mem_filter.mp (List.get_mem _ ⟨0, hSome⟩)).1
    rw [← hj, decide_eq_true_eq]
    omega
  rw [newlines, hk, List.range_add, List.filter_append, List.takeWhile_append_of_pos hFront, hBehind,
    List.append_nil]

theorem filter_range (s : Script) (p : Nat) :
    ((List.range p).filter s.NewlineAt).length = s.newlinesBefore p ∧
      ((List.range p).filter s.NewlineAt).getLast?.elim 0 (· + 1) = s.lineStart p := by
  induction p with
  | zero => exact ⟨rfl, rfl⟩
  | succ p ih =>
      obtain ⟨hLength, hLast⟩ := ih
      rw [List.range_succ, List.filter_append]
      by_cases hNewline : s.NewlineAt p
      · rw [newlinesBefore_newline hNewline, lineStart_newline hNewline, ← hLength]
        simp [hNewline]
      · rw [newlinesBefore_stays hNewline, lineStart_stays hNewline, ← hLength, ← hLast]
        simp [hNewline]

theorem lookUp_newlines (hp : p ≤ s.size) : lookUp s.newlines p = s.position p := by
  obtain ⟨hLength, hLast⟩ := s.filter_range p
  rw [lookUp, takeWhile_newlines hp, hLength, hLast, Nat.add_comm, Nat.add_comm (p - _)]
  rfl

/-- The line of an offset is one more than there are newlines in front of it, and the column one more than
the bytes from where the line begins; an index of the newlines gives the same. So two offsets of the text
have the same line and column only if they are the same offset, and line and column order as the offsets do.
An offset beyond the end is reported as the end. -/
theorem lines_columns_determine_offsets (s : Script) :
    (∀ p ≤ s.size, s.LineFrom (s.lineStart p) p ∧
      s.lineColumn p = (1 + s.newlinesBefore p, 1 + (p - s.lineStart p)) ∧
      s.lineColumn p = lookUp s.newlines p) ∧
    (∀ p ≤ s.size, ∀ q ≤ s.size,
      (s.lineColumn p = s.lineColumn q ↔ p = q) ∧
      (toLex (s.lineColumn p) < toLex (s.lineColumn q) ↔ p < q)) ∧
    ∀ p, s.size ≤ p → s.lineColumn p = s.lineColumn s.size := by
  have hInside {p : Nat} (hp : p ≤ s.size) : s.lineColumn p = s.position p := by
    rw [lineColumn_eq, Nat.min_eq_left hp]
  refine ⟨fun p hp => ?_, fun p hp q hq => ?_, fun p hp => ?_⟩
  · exact ⟨s.lineFrom_lineStart p, hInside hp, (hInside hp).trans (lookUp_newlines hp).symm⟩
  · rw [hInside hp, hInside hq]
    exact ⟨toLex_inj.symm.trans s.position_strictMono.injective.eq_iff, s.position_strictMono.lt_iff_lt⟩
  · rw [lineColumn_eq, lineColumn_eq, Nat.min_eq_right hp, Nat.min_self]

/-- Three lines, the second of which is empty. The first letter takes two bytes. -/
def threeLines : Script := ⟨"three", "é\n\nab".toList⟩

/-- The newlines end the first two lines, and the text goes on behind them. -/
theorem lines_columns_determine_offsets_threeLines :
    threeLines.lineColumn 2 = (1, 3) ∧ threeLines.lineColumn 5 = (3, 2) ∧
    toLex (threeLines.lineColumn 3) < toLex (threeLines.lineColumn 4) ∧
    threeLines.lineColumn 9 = threeLines.lineColumn 6 := by
  obtain ⟨hPosition, hOrder, hBeyond⟩ := lines_columns_determine_offsets threeLines
  refine ⟨(hPosition 2 (by decide)).2.1.trans (by decide), (hPosition 5 (by decide)).2.2.trans (by decide),
    (hOrder 3 (by decide) 4 (by decide)).2.mpr (by decide), hBeyond 9 (by decide)⟩

end EntityScript.Script
