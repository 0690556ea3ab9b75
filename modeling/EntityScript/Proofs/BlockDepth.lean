import EntityScript.Proofs.Nesting

/-! Two scans count the same blocks: the one that passes over a block, up to the brace that closes it,
and the one that tells how deep an offset lies, from the start of the text. -/
namespace EntityScript.Script

/-- The zone `left` bytes further on, when `zone` is the one before them. -/
def zoneAfter (left : Nat) (zone : Zone) : List Char → Zone
  | [] => zone
  | c :: cs =>
    if left = 0 then zone else zoneAfter (left - c.utf8Size) (zone.after c cs.head?) cs

/-- Where the count of the open blocks stands at an offset. -/
def zoneAt (s : Script) (pos : Nat) : Zone := zoneAfter pos .plain s.text

@[simp] theorem zoneAfter_zero (zone : Zone) (cs : List Char) : zoneAfter 0 zone cs = zone := by
  cases cs <;> rfl

@[simp] theorem depthAfter_zero (zone : Zone) (depth : Nat) (cs : List Char) :
    depthAfter 0 zone depth cs = depth := by
  cases cs <;> rfl

section

variable {left base depth depth' pos stop : Nat} {zone zone' : Zone} {c : Char} {cs : List Char}

/-- Counting a first part and then the rest. -/
theorem depthAfter_append (left : Nat) (zone : Zone) (depth : Nat) (passed rest : List Char) :
    depthAfter (Text.width passed + left) zone depth (passed ++ rest) =
      depthAfter left (zoneAfter (Text.width passed) zone (passed ++ rest))
        (depthAfter (Text.width passed) zone depth (passed ++ rest)) rest := by
  induction passed generalizing zone depth with
  | nil => simp
  | cons c cs ih =>
      have hSize : 0 < c.utf8Size := Char.utf8Size_pos c
      have hFirst : Text.width (c :: cs) + left - c.utf8Size = Text.width cs + left := by
        rw [Text.width_cons]
        omega
      have hRest : Text.width (c :: cs) - c.utf8Size = Text.width cs := by
        rw [Text.width_cons]
        omega
      have hSome : Text.width (c :: cs) ≠ 0 := by
        rw [Text.width_cons]
        omega
      rw [List.cons_append, depthAfter, depthAfter, zoneAfter, if_neg (by omega), if_neg hSome,
        if_neg hSome, hFirst, hRest]
      exact ih _ _

/-- As long as a block stays open, a character changes the count as it changes the nesting in it. -/
theorem depthAfter_step (hStep : nestStep zone depth c cs.head? = some (zone', depth'))
    (hOpen : 1 ≤ depth) (hLeft : left ≠ 0) (base : Nat) :
    depthAfter left zone (base + depth) (c :: cs) =
      depthAfter (left - c.utf8Size) zone' (base + depth') cs := by
  rw [depthAfter, if_neg hLeft]
  unfold nestStep at hStep
  split at hStep
  · rename_i hBrace
    simp only [Bool.and_eq_true, decide_eq_true_eq] at hBrace
    cases hStep
    simp only [hBrace.1, hBrace.2, if_true]
    rfl
  · rename_i hBrace
    split at hStep
    · rename_i hClose
      simp only [Bool.and_eq_true, decide_eq_true_eq] at hClose
      split at hStep
      · cases hStep
      · cases hStep
        rw [hClose.1, hClose.2, if_pos rfl, if_neg (by decide), if_pos rfl,
          Nat.add_sub_assoc hOpen]
    · rename_i hClose
      simp only [Bool.and_eq_true, decide_eq_true_eq, not_and] at hBrace hClose
      cases hStep
      split
      · rename_i hPlain
        rw [if_neg (hBrace hPlain), if_neg (hClose hPlain)]
      · rfl

/-- Where a block is still open, the count exceeds that before the block by the blocks open in it. -/
theorem depthAfter_nestAfter? (hNest : nestAfter? left zone depth cs = some (zone', depth'))
    (hOpen : 1 ≤ depth) (base : Nat) :
    depthAfter left zone (base + depth) cs = base + depth' ∧ 1 ≤ depth' := by
  induction cs generalizing left zone depth with
  | nil =>
      cases hNest
      exact ⟨rfl, hOpen⟩
  | cons c cs ih =>
      by_cases hLeft : left = 0
      · subst hLeft
        rw [nestAfter?_zero] at hNest
        cases hNest
        exact ⟨depthAfter_zero _ _ _, hOpen⟩
      · rw [nestAfter?_cons hLeft] at hNest
        obtain ⟨⟨zone₁, depth₁⟩, hStep, hRest⟩ := Option.bind_eq_some_iff.mp hNest
        rw [depthAfter_step hStep hOpen hLeft base]
        exact ih hRest (nestStep_open hStep hOpen)

/-- Behind the brace that closes a block the count is what it was before the block. -/
theorem depthAfter_closeBlock (hClose : closeBlock zone depth pos cs = (stop, true))
    (hOpen : 1 ≤ depth) (base : Nat) :
    depthAfter (stop - pos) zone (base + depth) cs = base := by
  induction cs generalizing zone depth pos with
  | nil => simp [closeBlock] at hClose
  | cons c cs ih =>
      have hBehind := (nestAfter?_isSome_iff hClose 0).mp (by simp)
      rw [closeBlock_cons] at hClose
      split at hClose
      · rename_i zone' depth' hStep
        have hLeft : stop - pos ≠ 0 := by omega
        rw [depthAfter_step hStep hOpen hLeft base, Nat.sub_sub]
        exact ih hClose (nestStep_open hStep hOpen)
      · rename_i hStep
        cases hClose
        obtain ⟨rfl, rfl, hLast⟩ := nestStep_eq_none hStep
        obtain rfl : depth = 1 := by omega
        rw [Nat.add_sub_cancel_left, depthAfter, if_neg (by decide)]
        exact depthAfter_zero _ _ _

/-- A block without a closing brace stays open as far as the text goes. -/
theorem nestAfter?_unclosed (hClose : closeBlock zone depth pos cs = (stop, false)) (left : Nat) :
    (nestAfter? left zone depth cs).isSome := by
  induction cs generalizing zone depth pos left with
  | nil => rfl
  | cons c cs ih =>
      by_cases hLeft : left = 0
      · simp [hLeft]
      · rw [closeBlock_cons] at hClose
        rw [nestAfter?_cons hLeft]
        split at hClose
        · rename_i zone' depth' hStep
          rw [hStep]
          exact ih hClose _
        · cases hClose

end

section

variable {s : Script} {p q fuel : Nat} {cs : List Char}

/-- The count behind a brace that opens a block outside quotes and remarks. -/
theorem blockDepth_behind (hBrace : s.from? p = some ('\x7b' :: cs)) (hPlain : s.zoneAt p = .plain)
    (more : Nat) :
    s.blockDepth (p + (1 + more)) = depthAfter more .plain (s.blockDepth p + 1) cs := by
  obtain ⟨before, hText, hWidth⟩ := Text.from?_eq_some hBrace
  subst hWidth
  unfold zoneAt at hPlain
  unfold blockDepth
  rw [hText] at hPlain ⊢
  rw [depthAfter_append, hPlain, depthAfter, if_neg (by omega)]
  exact congrArg (depthAfter · .plain _ cs) (Nat.add_sub_cancel_left 1 more)

/-- Passing over the block at a brace ends where its closing brace is found, without a report. -/
theorem skipStatement_brace (hBrace : s.from? p = some ('\x7b' :: cs)) :
    s.skipStatement (fuel + 1) p = .ok (q, []) ↔ closeBlock .plain 1 (p + 1) cs = (q, true) := by
  have hRest : s.rest p = '\x7b' :: cs := by simp [rest, hBrace]
  have hGaps : skipGaps true false p ('\x7b' :: cs) = (⟨p, '\x7b' :: cs⟩, none) := rfl
  simp only [skipStatement, hRest, hGaps, if_true]
  obtain ⟨stop, closed⟩ := closeBlock .plain 1 (p + 1) cs
  cases closed <;> simp

/-- Passing over a block and counting the open blocks agree: passing over the block at a brace outside
quotes and remarks ends at `q` without a report exactly if `q` is the first offset behind the brace
that lies no deeper than the brace itself. -/
theorem skipStatement_iff_blockDepth (hBrace : s.from? p = some ('\x7b' :: cs))
    (hPlain : s.zoneAt p = .plain) :
    s.skipStatement (fuel + 1) p = .ok (q, []) ↔
      p < q ∧ s.blockDepth q = s.blockDepth p ∧
        ∀ r, p < r → r < q → s.blockDepth p < s.blockDepth r := by
  rw [skipStatement_brace hBrace]
  -- Where the block is still open, the count is greater than at the brace.
  have hInside {r : Nat} (hBehind : p < r)
      (hOpen : (nestAfter? (r - (p + 1)) .plain 1 cs).isSome) : s.blockDepth p < s.blockDepth r := by
    obtain ⟨⟨zone, depth⟩, hNest⟩ := Option.isSome_iff_exists.mp hOpen
    have hCount := depthAfter_nestAfter? hNest (Nat.le_refl 1) (s.blockDepth p)
    rw [← blockDepth_behind hBrace hPlain, show p + (1 + (r - (p + 1))) = r by omega] at hCount
    omega
  generalize hClose : closeBlock .plain 1 (p + 1) cs = closing
  obtain ⟨stop, closed⟩ := closing
  cases closed with
  | false =>
      refine ⟨fun h => (by cases h), fun ⟨hBehind, hSame, _⟩ => ?_⟩
      have hLt := hInside hBehind (nestAfter?_unclosed hClose _)
      omega
  | true =>
      have hAfter := (nestAfter?_isSome_iff hClose 0).mp (by simp)
      have hBetween (r : Nat) (hBehind : p < r) (hBefore : r < stop) :
          s.blockDepth p < s.blockDepth r :=
        hInside hBehind ((nestAfter?_isSome_iff hClose _).mpr (by omega))
      have hStop : s.blockDepth stop = s.blockDepth p := by
        rw [show stop = p + (1 + (stop - (p + 1))) by omega, blockDepth_behind hBrace hPlain]
        exact depthAfter_closeBlock hClose (Nat.le_refl 1) _
      constructor
      · intro h
        cases h
        exact ⟨by omega, hStop, hBetween⟩
      · rintro ⟨hBehind, hSame, hDeeper⟩
        rcases Nat.lt_trichotomy q stop with hLt | rfl | hGt
        · have hOpen := hBetween q hBehind hLt
          omega
        · rfl
        · have hOpen := hDeeper stop (by omega) hGt
          omega

set_option maxRecDepth 100000 in
/-- Braces in quotes and in a remark count for neither. -/
theorem skipStatement_iff_blockDepth_doorway :
    let s : Script :=
      ⟨"door", "on init \x7b say \"\x7d\" // \x7d\n if (1) \x7b set £a ¤ \x7d \x7d\n \x7d".toList⟩
    s.blockDepth 8 = 0 ∧ s.zoneAt 8 = .plain ∧
      (s.skipStatement 1 8 = .ok (47, []) ↔
        8 < 47 ∧ s.blockDepth 47 = s.blockDepth 8 ∧
          ∀ r, 8 < r → r < 47 → s.blockDepth 8 < s.blockDepth r) ∧
      s.blockDepth 47 = 0 := by
  intro s
  have hBrace : s.from? 8 =
      some ('\x7b' :: " say \"\x7d\" // \x7d\n if (1) \x7b set £a ¤ \x7d \x7d\n \x7d".toList) := by
    decide +kernel
  have hPlain : s.zoneAt 8 = .plain := by decide +kernel
  have hIff : s.skipStatement 1 8 = .ok (47, []) ↔ _ := skipStatement_iff_blockDepth hBrace hPlain
  have hEnd : s.skipStatement 1 8 = .ok (47, []) :=
    (skipStatement_brace hBrace).mpr (by decide +kernel)
  exact ⟨by decide +kernel, hPlain, hIff, (hIff.mp hEnd).2.1.trans (by decide +kernel)⟩

end

end EntityScript.Script
