import EntityScript.Proofs.Statements

/-! How deep blocks are nested on the way through a text, counted as passing over a block counts them:
braces inside quotes and remarks do not count. -/
namespace EntityScript.Script

/-- The zone and the number of open blocks `left` bytes further on, when `depth` are open before; none
once the last of them has closed on the way. -/
def nestAfter? (left : Nat) (zone : Zone) (depth : Nat) : List Char → Option (Zone × Nat)
  | [] => some (zone, depth)
  | c :: cs =>
    if left = 0 then some (zone, depth)
    else
      let next := zone.after c cs.head?
      if zone = .plain && c = '\x7b' then nestAfter? (left - 1) next (depth + 1) cs
      else if zone = .plain && c = '\x7d' then
        if depth ≤ 1 then none else nestAfter? (left - 1) next (depth - 1) cs
      else nestAfter? (left - c.utf8Size) next depth cs

@[simp] theorem nestAfter?_zero (zone : Zone) (depth : Nat) (cs : List Char) :
    nestAfter? 0 zone depth cs = some (zone, depth) := by
  cases cs <;> rfl

/-- What a character does to the nesting. -/
def nestStep (zone : Zone) (depth : Nat) (c : Char) (follower : Option Char) : Option (Zone × Nat) :=
  if zone = .plain && c = '\x7b' then some (zone.after c follower, depth + 1)
  else if zone = .plain && c = '\x7d' then
    if depth ≤ 1 then none else some (zone.after c follower, depth - 1)
  else some (zone.after c follower, depth)

/-- The nesting ends at nothing but the brace that closes the last block. -/
theorem nestStep_eq_none {zone : Zone} {depth : Nat} {c : Char} {follower : Option Char}
    (h : nestStep zone depth c follower = none) : zone = .plain ∧ c = '\x7d' ∧ depth ≤ 1 := by
  unfold nestStep at h
  split at h
  · cases h
  · split at h
    · rename_i hClose
      simp only [Bool.and_eq_true, decide_eq_true_eq] at hClose
      refine ⟨hClose.1, hClose.2, ?_⟩
      split at h
      · assumption
      · cases h
    · cases h

/-- Until the nesting ends, a block stays open. -/
theorem nestStep_open {zone zone' : Zone} {depth depth' : Nat} {c : Char} {follower : Option Char}
    (h : nestStep zone depth c follower = some (zone', depth')) (hOpen : 1 ≤ depth) :
    1 ≤ depth' := by
  unfold nestStep at h
  split at h
  · cases h
    omega
  · split at h
    · split at h
      · cases h
      · cases h
        omega
    · cases h
      exact hOpen

/-- The nesting changes character by character. -/
theorem nestAfter?_cons {left : Nat} (hLeft : left ≠ 0) (zone : Zone) (depth : Nat) (c : Char)
    (cs : List Char) : nestAfter? left zone depth (c :: cs) =
      (nestStep zone depth c cs.head?).bind fun x => nestAfter? (left - c.utf8Size) x.1 x.2 cs := by
  rw [nestAfter?, if_neg hLeft]
  unfold nestStep
  split
  · rename_i hOpen
    simp only [Bool.and_eq_true, decide_eq_true_eq] at hOpen
    rw [hOpen.2]
    rfl
  · split
    · rename_i hClose
      simp only [Bool.and_eq_true, decide_eq_true_eq] at hClose
      split
      · rfl
      · rw [hClose.2]
        rfl
    · rfl

/-- Passing a first part and then the rest. -/
theorem nestAfter?_append (left : Nat) (zone : Zone) (depth : Nat) (passed rest : List Char) :
    nestAfter? (Text.width passed + left) zone depth (passed ++ rest) =
      (nestAfter? (Text.width passed) zone depth (passed ++ rest)).bind fun x =>
        nestAfter? left x.1 x.2 rest := by
  induction passed generalizing zone depth with
  | nil => simp
  | cons c cs ih =>
      have hSize : 0 < c.utf8Size := Char.utf8Size_pos c
      have hFirst : Text.width (c :: cs) + left - c.utf8Size = Text.width cs + left := by
        rw [Text.width_cons]
        omega
      have hRest : Text.width (c :: cs) - c.utf8Size = Text.width cs := by
        rw [Text.width_cons]
        omega
      have hSome : Text.width (c :: cs) ≠ 0 := by
        rw [Text.width_cons]
        omega
      rw [List.cons_append, nestAfter?_cons (by omega), nestAfter?_cons hSome, hFirst, hRest]
      cases nestStep zone depth c (cs ++ rest).head? with
      | none => rfl
      | some x => exact ih x.1 x.2

theorem nestStep_deeper {zone zone' : Zone} {depth depth' : Nat} {c : Char} {follower : Option Char}
    (h : nestStep zone depth c follower = some (zone', depth')) (more : Nat) :
    nestStep zone (depth + more) c follower = some (zone', depth' + more) := by
  unfold nestStep at h ⊢
  split at h
  · rename_i hOpen
    rw [if_pos hOpen]
    cases h
    rw [Nat.add_right_comm]
  · rename_i hOpen
    rw [if_neg hOpen]
    split at h
    · rename_i hClose
      rw [if_pos hClose]
      split at h
      · cases h
      · cases h
        rw [if_neg (by omega)]
        congr 2
        omega
    · rename_i hClose
      rw [if_neg hClose]
      cases h
      rfl

/-- Inside more blocks the same text is passed in the same way. -/
theorem nestAfter?_deeper {left depth depth' : Nat} {zone zone' : Zone} {cs : List Char}
    (h : nestAfter? left zone depth cs = some (zone', depth')) (more : Nat) :
    nestAfter? left zone (depth + more) cs = some (zone', depth' + more) := by
  induction cs generalizing left zone depth with
  | nil =>
      cases h
      rfl
  | cons c cs ih =>
      by_cases hLeft : left = 0
      · subst hLeft
        rw [nestAfter?_zero] at h ⊢
        cases h
        rfl
      · rw [nestAfter?_cons hLeft] at h ⊢
        obtain ⟨⟨zone₁, depth₁⟩, hStep, hRest⟩ := Option.bind_eq_some_iff.mp h
        rw [nestStep_deeper hStep more]
        exact ih hRest

theorem closeBlock_cons (zone : Zone) (depth pos : Nat) (c : Char) (cs : List Char) :
    closeBlock zone depth pos (c :: cs) = match nestStep zone depth c cs.head? with
      | some (zone', depth') => closeBlock zone' depth' (pos + c.utf8Size) cs
      | none => (pos + c.utf8Size, true) := by
  rw [closeBlock]
  unfold nestStep
  split
  · rename_i hOpen
    simp only [Bool.and_eq_true, decide_eq_true_eq] at hOpen
    rw [hOpen.2]
    rfl
  · split
    · rename_i hClose
      simp only [Bool.and_eq_true, decide_eq_true_eq] at hClose
      rw [hClose.2]
      split <;> rfl
    · rfl

/-- Up to the place behind its closing brace a block is open, and from there on it is not. -/
theorem nestAfter?_isSome_iff {zone : Zone} {depth pos stop : Nat} {cs : List Char}
    (h : closeBlock zone depth pos cs = (stop, true)) (left : Nat) :
    (nestAfter? left zone depth cs).isSome ↔ pos + left < stop := by
  induction cs generalizing zone depth pos left with
  | nil => simp [closeBlock] at h
  | cons c cs ih =>
      have hSize : 0 < c.utf8Size := Char.utf8Size_pos c
      rw [closeBlock_cons] at h
      by_cases hLeft : left = 0
      · subst hLeft
        simp only [nestAfter?_zero, Option.isSome_some, true_iff, Nat.add_zero]
        split at h
        · have hRest := (ih h 0).mp (by simp)
          omega
        · cases h
          omega
      · rw [nestAfter?_cons hLeft]
        split at h
        · rename_i zone' depth' hStep
          have hRest := ih h (left - c.utf8Size)
          have hNow := (ih h 0).mp (by simp)
          rw [hStep, Option.bind_some, hRest]
          omega
        · rename_i hStep
          rw [hStep]
          cases h
          simp only [Option.bind_none, Option.isSome_none, Bool.false_eq_true, false_iff]
          have hOne : c.utf8Size = 1 := by
            rw [(nestStep_eq_none hStep).2.1]
            rfl
          omega

/-- Passing a block that closes leaves one block fewer open. -/
theorem nestAfter?_closeBlock {zone : Zone} {depth pos stop : Nat} {cs : List Char}
    (h : closeBlock zone depth pos cs = (stop, true)) (hDepth : 1 ≤ depth) :
    nestAfter? (stop - pos) zone (depth + 1) cs = some (.plain, 1) := by
  induction cs generalizing zone depth pos with
  | nil => simp [closeBlock] at h
  | cons c cs ih =>
      have hBehind := (nestAfter?_isSome_iff h 0).mp (by simp)
      rw [nestAfter?_cons (by omega)]
      rw [closeBlock_cons] at h
      split at h
      · rename_i zone' depth' hStep
        have hOpen := nestStep_open hStep hDepth
        rw [nestStep_deeper hStep 1, Option.bind_some, ← ih h hOpen, Nat.sub_sub]
      · rename_i hStep
        cases h
        obtain ⟨rfl, rfl, hLast⟩ := nestStep_eq_none hStep
        obtain rfl : depth = 1 := by omega
        simp [nestStep, Zone.after]

/-- Of two offsets that text can be read at, the later lies behind the earlier. -/
theorem Valid.reaches {s : Script} {p q : Nat} (hp : s.Valid p) (hq : s.Valid q) (hLe : p ≤ q) :
    Place.Reaches ⟨p, s.rest p⟩ ⟨q, s.rest q⟩ := by
  obtain ⟨beforeP, hTextP, hWidthP⟩ := Text.from?_eq_some hp.holds
  obtain ⟨beforeQ, hTextQ, hWidthQ⟩ := Text.from?_eq_some hq.holds
  simp only at hTextP hTextQ hWidthP hWidthQ
  rcases List.append_eq_append_iff.mp (hTextP.symm.trans hTextQ) with
    ⟨passed, hBefore, hRest⟩ | ⟨passed, hBefore, hRest⟩
  · refine ⟨passed, hRest, ?_⟩
    rw [hBefore, Text.width_append] at hWidthQ
    simp only
    omega
  · rw [hBefore, Text.width_append] at hWidthP
    have hNone : passed = [] := by
      cases passed with
      | nil => rfl
      | cons c cs =>
          have hSize : 0 < c.utf8Size := Char.utf8Size_pos c
          rw [Text.width_cons] at hWidthP
          omega
    subst hNone
    simp only [Text.width_nil, List.nil_append] at hWidthP hRest
    refine ⟨[], hRest.symm, ?_⟩
    simp only [Text.width_nil]
    omega

/-- The nesting at `pos`, counted from inside a block at `origin`. -/
def nestAt? (s : Script) (origin pos : Nat) : Option (Zone × Nat) :=
  nestAfter? (pos - origin) .plain 1 (s.rest origin)

theorem nestAt?_add {s : Script} {origin p q : Nat} (hOrigin : s.Valid origin) (hp : s.Valid p)
    (hBehind : origin ≤ p) (hLe : p ≤ q) :
    s.nestAt? origin q = (s.nestAt? origin p).bind fun x =>
      nestAfter? (q - p) x.1 x.2 (s.rest p) := by
  obtain ⟨passed, hRest, hPos⟩ := hOrigin.reaches hp hBehind
  simp only at hRest hPos
  have hLeft : q - origin = Text.width passed + (q - p) := by omega
  have hFirst : p - origin = Text.width passed := by omega
  rw [nestAt?, nestAt?, hLeft, hFirst, hRest]
  exact nestAfter?_append _ _ _ _ _

/-- A place outside quotes and remarks, or at the end of a line, where both end. -/
def settled (s : Script) (zone : Zone) (pos : Nat) : Bool :=
  zone = .plain || (s.rest pos).head?.all (· = '\n')

/-- The text between two places holds whole blocks only, and it does not end inside quotes or a
remark. -/
def balanced (s : Script) (p q : Nat) : Bool :=
  match nestAfter? (q - p) .plain 1 (s.rest p) with
  | some (zone, depth) => depth = 1 && s.settled zone q
  | none => false

/-- From a settled place on, text is passed as from one outside quotes and remarks. -/
theorem nestAfter?_settled {s : Script} {zone : Zone} {p left depth : Nat}
    (hSettled : s.settled zone p = true) (hLeft : left ≠ 0) (hMore : s.rest p ≠ []) :
    nestAfter? left zone depth (s.rest p) = nestAfter? left .plain depth (s.rest p) := by
  simp only [settled, Bool.or_eq_true, decide_eq_true_eq] at hSettled
  rcases hSettled with rfl | hEnd
  · rfl
  · cases hRest : s.rest p with
    | nil => exact absurd hRest hMore
    | cons c cs =>
        rw [hRest, List.head?_cons, Option.all_some, decide_eq_true_eq] at hEnd
        subst hEnd
        rw [nestAfter?_cons hLeft, nestAfter?_cons hLeft]
        cases zone <;> rfl

theorem nestStep_gap {c : Char} (hGap : isGap c = true) (depth : Nat) (follower : Option Char) :
    nestStep .plain depth c follower = some (.plain, depth) := by
  have hNe (special : Char) (hSpecial : isGap special = false) : c ≠ special := by
    rintro rfl
    rw [hSpecial] at hGap
    cases hGap
  simp [nestStep, Zone.after, hNe '\x7b' rfl, hNe '\x7d' rfl, hNe '"' rfl, hNe '/' rfl]

/-- The gaps before a word open and close no block. -/
theorem skipGaps_nest (remark : Bool) (pos depth : Nat) (cs : List Char) :
    ∃ zone, nestAfter? ((skipGaps true remark pos cs).1.pos - pos)
        (if remark then .remark else .plain) depth cs = some (zone, depth) ∧
      ((skipGaps true remark pos cs).1.rest ≠ [] → zone = .plain) := by
  induction cs generalizing remark pos with
  | nil => exact ⟨if remark then .remark else .plain, rfl, fun h => absurd rfl h⟩
  | cons c cs ih =>
      have hSize : 0 < c.utf8Size := Char.utf8Size_pos c
      -- Behind the first character the gaps go on as they do from there.
      have hNext (zone : Zone) (remark' : Bool) (hZone : nestStep zone depth c cs.head? =
          some (if remark' then .remark else .plain, depth)) :
          ∃ zone', nestAfter? ((skipGaps true remark' (pos + c.utf8Size) cs).1.pos - pos) zone depth
              (c :: cs) = some (zone', depth) ∧
            ((skipGaps true remark' (pos + c.utf8Size) cs).1.rest ≠ [] → zone' = .plain) := by
        have hLe := (skipGaps_reaches true remark' (pos + c.utf8Size) cs).le
        simp only at hLe
        obtain ⟨zone', hRest, hPlain⟩ := ih remark' (pos + c.utf8Size)
        refine ⟨zone', ?_, hPlain⟩
        rw [nestAfter?_cons (by omega), hZone, Option.bind_some, ← hRest]
        congr 1
        omega
      rw [skipGaps]
      split
      · rename_i hNewline
        subst hNewline
        exact hNext _ false (by cases remark <;> rfl)
      · rename_i hNewline
        split
        · rename_i hGap
          refine hNext _ remark ?_
          cases remark with
          | true => simp [nestStep, Zone.after, hNewline]
          | false => exact nestStep_gap hGap depth _
        · rename_i hGap
          split
          · rename_i hSlash
            simp only [Bool.and_eq_true, decide_eq_true_eq] at hSlash
            obtain ⟨rfl, hSecond⟩ := hSlash
            simp only [Bool.or_eq_true, not_or, Bool.not_eq_true] at hGap
            rw [hGap.1]
            exact hNext _ true (by simp [nestStep, Zone.after, hSecond])
          · simp only [Bool.or_eq_true, not_or, Bool.not_eq_true] at hGap
            rw [hGap.1]
            exact ⟨.plain, by simp, fun _ => rfl⟩

/-- A block that is passed over without a report is a whole block. -/
theorem balanced_skipStatement {s : Script} {fuel pos stop : Nat} {cs : List Char}
    (hBlock : (skipGaps true false pos (s.rest pos)).1.rest = '\x7b' :: cs)
    (hSkip : s.skipStatement (fuel + 1) pos = .ok (stop, [])) : s.balanced pos stop = true := by
  obtain ⟨zone, hGaps, hPlain⟩ := skipGaps_nest false pos 1 (s.rest pos)
  obtain ⟨passed, hRest, hStart⟩ := skipGaps_reaches true false pos (s.rest pos)
  rw [hPlain (by simp [hBlock])] at hGaps
  simp only [hBlock] at hRest hStart
  rw [hStart, Nat.add_sub_cancel_left, hRest] at hGaps
  simp only [Bool.false_eq_true, if_false] at hGaps
  simp only [skipStatement, hBlock, if_true, hStart] at hSkip
  generalize hClose : closeBlock .plain 1 _ cs = closing at hSkip
  obtain ⟨behind, closed⟩ := closing
  cases closed with
  | false => simp at hSkip
  | true =>
      obtain rfl : behind = stop := by simpa using hSkip
      have hWhole := nestAfter?_closeBlock hClose (Nat.le_refl 1)
      have hBehind := (nestAfter?_isSome_iff hClose 0).mp (by simp)
      have hLeft : behind - pos = Text.width passed + (behind - (pos + Text.width passed)) := by omega
      have hPassed : nestAfter? (behind - pos) .plain 1 (s.rest pos) = some (.plain, 1) := by
        rw [hLeft, hRest, nestAfter?_append, hGaps, Option.bind_some, nestAfter?_cons (by omega)]
        rw [← Nat.sub_sub] at hWhole
        exact hWhole
      simp [balanced, hPassed, settled]

/-- A brace that is read as a word, without a report, stands at the place itself. -/
theorem commandWord_bare {pos : Nat} {cs : List Char} {brace : Char}
    (hValue : (commandWord pos cs).value = [brace]) (hNotes : (commandWord pos cs).notes = []) :
    ∃ rest, cs = brace :: rest ∧ (commandWord pos cs).stop.pos = pos + brace.utf8Size := by
  have hEmpty (pos : Nat) (cs : List Char) (hValue : (commandWord pos cs).value = [])
      (hNotes : (commandWord pos cs).notes = []) : (commandWord pos cs).stop.pos = pos := by
    cases cs with
    | nil => rfl
    | cons c cs =>
        rw [commandWord] at hValue hNotes ⊢
        split
        · rfl
        · rename_i hWord
          rw [if_neg hWord] at hValue hNotes
          dsimp only at hValue hNotes
          split at hNotes
          · cases hNotes
          · rename_i hQuote
            rw [if_neg hQuote] at hValue
            cases hValue
  cases cs with
  | nil => cases hValue
  | cons c cs =>
      rw [commandWord] at hValue hNotes ⊢
      split
      · rename_i hGap
        rw [if_pos hGap] at hValue
        cases hValue
      · rename_i hWord
        rw [if_neg hWord] at hValue hNotes
        dsimp only at hValue hNotes ⊢
        split at hNotes
        · cases hNotes
        · rename_i hQuote
          rw [if_neg hQuote] at hValue ⊢
          simp only [List.cons.injEq] at hValue
          obtain ⟨rfl, hRest⟩ := hValue
          exact ⟨cs, rfl, hEmpty _ _ hRest hNotes⟩

/-- A word begins at its place, and with the character there unless that is a quote or a tilde. -/
theorem commandWord_begins {pos : Nat} {cs : List Char} (h : (commandWord pos cs).value ≠ []) :
    ∃ c rest, cs = c :: rest ∧ pos + c.utf8Size ≤ (commandWord pos cs).stop.pos ∧
      (c = '\x7d' → (commandWord pos cs).value.head? = some c) := by
  cases cs with
  | nil => exact absurd rfl h
  | cons c cs =>
      refine ⟨c, cs, rfl, ?_, ?_⟩
      · have hLe := (commandWord_reaches (pos + c.utf8Size) cs).le
        rw [commandWord] at h ⊢
        split
        · rename_i hGap
          rw [if_pos hGap] at h
          exact absurd rfl h
        · dsimp only
          split <;> exact hLe
      · rintro rfl
        rw [commandWord] at h ⊢
        rw [if_neg (by simp [isGap])] at h ⊢
        rfl

section

variable {s : Script} {origin pos depth : Nat} {zone : Zone}

/-- From a settled place the gaps lead out of quotes and remarks. -/
theorem nestAfter?_gaps (hSettled : s.settled zone pos = true)
    (hMore : (skipGaps true false pos (s.rest pos)).1.rest ≠ []) :
    nestAfter? ((skipGaps true false pos (s.rest pos)).1.pos - pos) zone depth (s.rest pos) =
      some (.plain, depth) := by
  have hRest : s.rest pos ≠ [] := by
    intro hNone
    rw [hNone] at hMore
    exact hMore rfl
  obtain ⟨zone', hNest, hPlain⟩ := skipGaps_nest false pos depth (s.rest pos)
  rw [hPlain hMore] at hNest
  by_cases hLeft : (skipGaps true false pos (s.rest pos)).1.pos - pos = 0
  · rw [hLeft, nestAfter?_zero]
    simp only [settled, Bool.or_eq_true, decide_eq_true_eq] at hSettled
    rcases hSettled with rfl | hEnd
    · rfl
    · obtain ⟨c, cs, hcs⟩ := List.exists_cons_of_ne_nil hRest
      rw [hcs, List.head?_cons, Option.all_some, decide_eq_true_eq] at hEnd
      subst hEnd
      have hLe := (skipGaps_reaches true false (pos + 1) cs).le
      rw [hcs, skipGaps] at hLeft
      simp only [if_true] at hLeft hLe
      omega
  · rw [nestAfter?_settled hSettled hLeft hRest]
    exact hNest

/-- The nesting where a word begins is that of the settled place before its gaps. -/
theorem nestAt?_gaps (hOrigin : s.Valid origin) (hPos : s.Valid pos) (hBehind : origin ≤ pos)
    (hNest : s.nestAt? origin pos = some (zone, depth)) (hSettled : s.settled zone pos = true)
    (hMore : (skipGaps true false pos (s.rest pos)).1.rest ≠ []) :
    s.nestAt? origin (skipGaps true false pos (s.rest pos)).1.pos = some (.plain, depth) := by
  have hLe := (skipGaps_reaches true false pos (s.rest pos)).le
  rw [nestAt?_add hOrigin hPos hBehind hLe, hNest, Option.bind_some]
  exact nestAfter?_gaps hSettled hMore

/-- Balanced text leaves the nesting as it is. -/
theorem nestAt?_balanced {next : Nat} (hOrigin : s.Valid origin) (hPos : s.Valid pos)
    (hBehind : origin ≤ pos) (hLe : pos ≤ next) (hDepth : 1 ≤ depth)
    (hNest : s.nestAt? origin pos = some (zone, depth)) (hSettled : s.settled zone pos = true)
    (hBalanced : s.balanced pos next = true) :
    ∃ zone', s.nestAt? origin next = some (zone', depth) ∧ s.settled zone' next = true := by
  rw [nestAt?_add hOrigin hPos hBehind hLe, hNest, Option.bind_some]
  by_cases hLeft : next - pos = 0
  · have hSame : next = pos := by omega
    subst hSame
    rw [hLeft, nestAfter?_zero]
    exact ⟨zone, rfl, hSettled⟩
  · unfold balanced at hBalanced
    split at hBalanced
    · rename_i zone' depth' hPassed
      simp only [Bool.and_eq_true, decide_eq_true_eq] at hBalanced
      obtain ⟨rfl, hNext⟩ := hBalanced
      by_cases hMore : s.rest pos = []
      · rw [hMore] at hPassed ⊢
        refine ⟨zone, rfl, ?_⟩
        have hEnd : s.rest next = [] := by
          have hSize := hPos.holds.size_eq
          simp only [hMore, Text.width_nil, Nat.add_zero] at hSize
          cases hFrom : s.from? next with
          | none => simp [rest, hFrom]
          | some cs =>
              have hNextSize := Holds.size_eq (s := s) (p := ⟨next, cs⟩) hFrom
              simp only at hNextSize
              omega
        simp [settled, hEnd]
      · have hDeeper := nestAfter?_deeper hPassed (depth - 1)
        rw [show 1 + (depth - 1) = depth by omega] at hDeeper
        exact ⟨zone', by rw [nestAfter?_settled hSettled hLeft hMore, hDeeper], hNext⟩
    · cases hBalanced

/-- A brace that stands bare opens or closes one block. -/
theorem nestAt?_brace {brace : Char} {scan : Scan (List Char)} (hOrigin : s.Valid origin)
    (hBehind : origin ≤ pos) (hNest : s.nestAt? origin pos = some (zone, depth))
    (hSettled : s.settled zone pos = true) (hScan : s.commandAt true pos = .ok scan)
    (hValue : scan.value = [brace]) (hNotes : scan.notes = []) (hSize : brace.utf8Size = 1) :
    ∃ follower, s.nestAt? origin scan.stop.pos = nestStep .plain depth brace follower := by
  have hPos := (commandAt_holds hScan).1
  have hStart := hPos.holds.reaches (skipGaps_reaches true false pos (s.rest pos))
  rw [commandAt_eq hScan] at hValue hNotes ⊢
  obtain ⟨rest, hRest, hStop⟩ := commandWord_bare hValue hNotes
  have hGaps := nestAt?_gaps hOrigin hPos hBehind hNest hSettled (by rw [hRest]; simp)
  have hLe := (skipGaps_reaches true false pos (s.rest pos)).le
  simp only at hLe
  rw [hStop, hSize, nestAt?_add hOrigin hStart.valid (by omega) (Nat.le_add_right _ 1), hGaps,
    Option.bind_some, hStart.rest_eq, hRest, Nat.add_sub_cancel_left,
    nestAfter?_cons (by simp), hSize]
  refine ⟨rest.head?, ?_⟩
  cases nestStep .plain depth brace rest.head? with
  | none => rfl
  | some x => simp

end

end EntityScript.Script
