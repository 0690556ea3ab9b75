/-!
Text as a list of characters, addressed by byte. An offset counts the bytes that the characters
before it take in UTF-8; an offset inside a character, or beyond the end, addresses nothing.
-/

namespace EntityScript.Text

/-- The number of bytes that the characters take. -/
def width : List Char → Nat
  | [] => 0
  | c :: cs => c.utf8Size + width cs

@[simp] theorem width_nil : width [] = 0 := rfl

@[simp] theorem width_cons (c : Char) (cs : List Char) :
    width (c :: cs) = c.utf8Size + width cs := rfl

@[simp] theorem width_append (xs ys : List Char) : width (xs ++ ys) = width xs + width ys := by
  induction xs with
  | nil => simp
  | cons c cs ih => simp [ih, Nat.add_assoc]

/-- The characters from byte offset `n` on, if `n` lies between two characters or at the end. -/
def from? : List Char → Nat → Option (List Char)
  | cs, 0 => some cs
  | [], _ + 1 => none
  | c :: cs, n + 1 => if c.utf8Size ≤ n + 1 then from? cs (n + 1 - c.utf8Size) else none

@[simp] theorem from?_zero (cs : List Char) : from? cs 0 = some cs := by
  cases cs <;> rfl

/-- What `from?` returns is preceded by exactly the bytes it was asked to pass. -/
theorem from?_eq_some {cs rest : List Char} {n : Nat} (h : from? cs n = some rest) :
    ∃ before, cs = before ++ rest ∧ width before = n := by
  fun_induction from? cs n with
  | case1 cs => exact ⟨[], by simpa using h⟩
  | case2 n => simp at h
  | case3 c cs n hc ih =>
    obtain ⟨before, hcs, hw⟩ := ih h
    exact ⟨c :: before, by simp [hcs], by simp [hw]; omega⟩
  | case4 => simp at h

/-- Passing the bytes of a first part leaves the second. -/
@[simp] theorem from?_width_append (before rest : List Char) :
    from? (before ++ rest) (width before) = some rest := by
  induction before with
  | nil => simp
  | cons c cs ih =>
    have hpos : 0 < c.utf8Size := Char.utf8Size_pos c
    obtain ⟨n, hn⟩ : ∃ n, c.utf8Size + width cs = n + 1 := ⟨c.utf8Size + width cs - 1, by omega⟩
    have hle : c.utf8Size ≤ n + 1 := by omega
    have hrest : n + 1 - c.utf8Size = width cs := by omega
    simp [hn, from?, hle, hrest, ih]

end EntityScript.Text
