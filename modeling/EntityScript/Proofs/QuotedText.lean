import EntityScript.Script.Landmark

/-! Quoted text and the places that a script can be entered at. What stands inside a quoted string opens
and closes no block. The search for headers and labels does not know of strings: it comes to the same for
two contents of a string of one length exactly if what it looks for stands before the string, or two
slashes do on its line, or the contents show the same. -/
namespace EntityScript.Script

/-- Text that stands between two quotes on one line. -/
def Quotable (content : List Char) : Prop := ∀ c ∈ content, c ≠ '"' ∧ c ≠ '\n'

instance (content : List Char) : Decidable (Quotable content) :=
  List.decidableBAll _ content

theorem Quotable.cons {c : Char} {cs : List Char} (h : Quotable (c :: cs)) :
    (c ≠ '"' ∧ c ≠ '\n') ∧ Quotable cs := List.forall_mem_cons.mp h

/-! Blocks. -/

/-- The zone behind a part of the text; `next` is the character that follows the part. -/
def zoneBehind (zone : Zone) (next : Option Char) : List Char → Zone
  | [] => zone
  | c :: cs => zoneBehind (zone.after c (cs.head?.or next)) next cs

/-- No block opens or closes inside a string. -/
theorem depthAfter_content {content : List Char} (h : Quotable content) (left depth : Nat)
    (rest : List Char) :
    depthAfter left .quoted depth (content ++ '"' :: rest) =
      depthAfter (left - Text.width content) .quoted depth ('"' :: rest) := by
  induction content generalizing left with
  | nil => rfl
  | cons c cs ih =>
      obtain ⟨⟨hQuote, hLine⟩, hRest⟩ := h.cons
      rw [List.cons_append, depthAfter]
      split
      · rename_i hNone
        rw [hNone, Nat.zero_sub]
        rfl
      · have hStays (next : Option Char) : Zone.after .quoted c next = .quoted := by
          simp [Zone.after, hQuote, hLine]
        rw [hStays, Text.width_cons, ← Nat.sub_sub]
        exact ih hRest _

/-- Contents of one length leave the same number of blocks open, wherever one counts. -/
theorem depthAfter_quoted {pre a b : List Char} (ha : Quotable a) (hb : Quotable b)
    (hWidth : Text.width a = Text.width b) {zone : Zone}
    (hPlain : zoneBehind zone (some '"') pre = .plain) (left depth : Nat) (post : List Char) :
    depthAfter left zone depth (pre ++ '"' :: (a ++ '"' :: post)) =
      depthAfter left zone depth (pre ++ '"' :: (b ++ '"' :: post)) := by
  induction pre generalizing left zone depth with
  | nil =>
      obtain rfl : zone = .plain := hPlain
      have hOpens (next : Option Char) : Zone.after .plain '"' next = .quoted := rfl
      rw [List.nil_append, List.nil_append, depthAfter, depthAfter, hOpens, hOpens,
        depthAfter_content ha, depthAfter_content hb, hWidth]
  | cons c cs ih =>
      have hNext (rest : List Char) : (cs ++ '"' :: rest).head? = cs.head?.or (some '"') :=
        List.head?_append
      rw [List.cons_append, List.cons_append, depthAfter, depthAfter, hNext, hNext, ih hPlain]

/-! Headers and labels. -/

/-- Whether two slashes stand on the line before a place, behind a part of the text. -/
def hiddenBehind (before : Option Char) (hidden : Bool) : List Char → Bool
  | [] => hidden
  | c :: cs => hiddenBehind (some c) (c ≠ '\n' && (hidden || (before = some '/' && c = '/'))) cs

/-- The offset behind the first mark that begins in a part of the text, if it is a whole word and not in
a remark; `next` is the text behind the part. -/
def markWithin (mark : List Char) (before : Option Char) (hidden : Bool) (pos : Nat)
    (next : List Char) : List Char → Option Nat
  | [] => none
  | c :: cs =>
    if before.all isBreak && !hidden && mark.isPrefixOf (c :: cs ++ next) &&
        ((c :: cs ++ next).drop mark.length).head?.all isBreak then
      some (pos + Text.width mark)
    else
      markWithin mark (some c) (c ≠ '\n' && (hidden || (before = some '/' && c = '/')))
        (pos + c.utf8Size) next cs

variable {mark : List Char} {before : Option Char} {hidden : Bool} {pos p : Nat} {next : List Char}

/-- The search goes through one part of the text after the other. -/
theorem headerFrom_append (mark : List Char) (before : Option Char) (hidden : Bool) (pos : Nat)
    (part rest : List Char) :
    headerFrom mark before hidden pos (part ++ rest) =
      (markWithin mark before hidden pos rest part).or
        (headerFrom mark (part.getLast?.or before) (hiddenBehind before hidden part)
          (pos + Text.width part) rest) := by
  induction part generalizing before hidden pos with
  | nil => simp [markWithin, hiddenBehind]
  | cons c cs ih =>
      rw [List.cons_append, headerFrom, markWithin, List.cons_append]
      split
      · rfl
      · rw [ih, hiddenBehind, Text.width_cons, ← Nat.add_assoc, List.getLast?_cons]
        cases cs.getLast? <;> rfl

/-- What is found in a part begins there. -/
theorem markWithin_bounds {part : List Char} (h : markWithin mark before hidden pos next part = some p) :
    pos + Text.width mark ≤ p ∧ p < pos + Text.width part + Text.width mark := by
  induction part generalizing before hidden pos with
  | nil => cases h
  | cons c cs ih =>
      have hSize := c.utf8Size_pos
      rw [markWithin] at h
      rw [Text.width_cons]
      split at h
      · cases h
        omega
      · have := ih h
        omega

theorem headerFrom_eq_markWithin (mark : List Char) (before : Option Char) (hidden : Bool) (pos : Nat)
    (rest : List Char) :
    headerFrom mark before hidden pos rest = markWithin mark before hidden pos [] rest := by
  have hWhole := headerFrom_append mark before hidden pos rest []
  rwa [List.append_nil, headerFrom, Option.or_none] at hWhole

theorem headerFrom_bound {rest : List Char} (h : headerFrom mark before hidden pos rest = some p) :
    pos + Text.width mark ≤ p := by
  rw [headerFrom_eq_markWithin] at h
  exact (markWithin_bounds h).1

/-- Where a part stands decides only where something is found. -/
theorem markWithin_shift (mark : List Char) (before : Option Char) (hidden : Bool) (offset pos : Nat)
    (next part : List Char) :
    markWithin mark before hidden (offset + pos) next part =
      (markWithin mark before hidden pos next part).map (offset + ·) := by
  induction part generalizing before hidden pos with
  | nil => rfl
  | cons c cs ih =>
      rw [markWithin, markWithin]
      split
      · rw [Option.map_some, Nat.add_assoc]
      · rw [Nat.add_assoc, ih]

/-- On a line with two slashes before nothing is found. -/
theorem markWithin_hidden {part : List Char} (h : ∀ c ∈ part, c ≠ '\n') :
    markWithin mark before true pos next part = none := by
  induction part generalizing before pos with
  | nil => rfl
  | cons c cs ih =>
      obtain ⟨hLine, hRest⟩ := List.forall_mem_cons.mp h
      rw [markWithin]
      simpa [hLine] using ih hRest

theorem hiddenBehind_line {part : List Char} (h : ∀ c ∈ part, c ≠ '\n') (before : Option Char)
    (hidden : Bool) : hiddenBehind before hidden part = (hidden || hiddenBehind before false part) := by
  induction part generalizing before hidden with
  | nil => simp [hiddenBehind]
  | cons c cs ih =>
      obtain ⟨hLine, hRest⟩ := List.forall_mem_cons.mp h
      rw [hiddenBehind, hiddenBehind, ih hRest, ih hRest (some c) (_ && _)]
      simp [hLine, Bool.or_assoc]

/-- A mark that cannot reach into a string or out of it, nor begin with a line. -/
structure Whole (mark : List Char) : Prop where
  begins : ∃ c cs, mark = c :: cs ∧ c ≠ '\n'
  quoteless : '"' ∉ mark

section Whole

variable (hMark : Whole mark)

include hMark

theorem Whole.isPrefixOf_quote (cs rest : List Char) :
    mark.isPrefixOf (cs ++ '"' :: rest) = mark.isPrefixOf cs := by
  have hQuote := hMark.quoteless
  clear hMark
  induction mark generalizing cs with
  | nil => simp
  | cons m ms ih =>
      rw [List.mem_cons, not_or] at hQuote
      cases cs with
      | nil => simp [List.isPrefixOf, Ne.symm hQuote.1]
      | cons c cs => simp [List.isPrefixOf, ih cs hQuote.2]

/-- What is found before a quote does not depend on what follows it. -/
theorem markWithin_quote (part rest : List Char) :
    markWithin mark before hidden pos ('"' :: rest) part = markWithin mark before hidden pos ['"'] part := by
  induction part generalizing before hidden pos with
  | nil => rfl
  | cons c cs ih =>
      have hFollows (hPrefix : mark.isPrefixOf (c :: cs) = true) :
          ((c :: cs ++ '"' :: rest).drop mark.length).head? =
            ((c :: cs ++ ['"']).drop mark.length).head? := by
        have hLength := (List.isPrefixOf_iff_prefix.mp hPrefix).length_le
        rw [List.drop_append_of_le_length hLength, List.drop_append_of_le_length hLength,
          List.head?_append, List.head?_append]
        rfl
      rw [markWithin, markWithin, ih, hMark.isPrefixOf_quote, hMark.isPrefixOf_quote]
      cases hPrefix : mark.isPrefixOf (c :: cs) with
      | false => simp
      | true => rw [hFollows hPrefix]

/-- Nothing begins with a quote. -/
theorem headerFrom_quote (rest : List Char) :
    headerFrom mark before hidden pos ('"' :: rest) =
      headerFrom mark (some '"') hidden (pos + 1) rest := by
  obtain ⟨⟨m, ms, rfl, _⟩, hQuote⟩ := hMark
  have hFirst : m ≠ '"' := fun hSame => hQuote (hSame ▸ List.mem_cons_self)
  rw [headerFrom]
  simp [List.isPrefixOf, hFirst]
  rfl

/-- Nothing begins with a newline, and behind it the remark is over. -/
theorem headerFrom_newline (rest : List Char) :
    headerFrom mark before hidden pos ('\n' :: rest) =
      headerFrom mark (some '\n') false (pos + 1) rest := by
  obtain ⟨⟨m, ms, rfl, hLine⟩, _⟩ := hMark
  rw [headerFrom]
  simp [List.isPrefixOf, hLine]
  rfl

end Whole

/-- Where a mark begins inside a string, counted from behind the opening quote to behind the mark. -/
def markInside? (mark content : List Char) : Option Nat :=
  markWithin mark (some '"') false 0 ['"'] content

/-- Whether a content hides what follows the string on its line. -/
def hides (content : List Char) : Bool := hiddenBehind (some '"') false content

/-- Whether a mark begins behind a string on its line, as long as nothing hides it. -/
def marksLine (mark post : List Char) : Bool :=
  (markWithin mark (some '"') false 0 (post.dropWhile (· ≠ '\n')) (post.takeWhile (· ≠ '\n'))).isSome

/-- The search for a mark does not tell two contents of a string apart. -/
inductive Indifferent (mark pre a b post : List Char) : Prop where
  /-- The mark stands before the string. -/
  | before (h : (markWithin mark none false 0 ['"'] pre).isSome = true)
  /-- Two slashes stand before the string on its line. -/
  | hidden (h : hiddenBehind none false pre = true)
  /-- The mark stands in the string, at the same place in both contents. -/
  | inside {p : Nat} (ha : markInside? mark a = some p) (hb : markInside? mark b = some p)
  /-- It stands in neither, and both or none of them hide what follows, or nothing follows. -/
  | behind (ha : markInside? mark a = none) (hb : markInside? mark b = none)
      (hRest : hides a = hides b ∨ marksLine mark post = false)

/-- What the search for a mark comes to: what stands before the string, then what stands in it, then what
follows, which the content may hide as far as the line goes. -/
theorem headerFrom_quoted (hMark : Whole mark) {content : List Char} (h : Quotable content)
    (pre post : List Char) :
    headerFrom mark none false 0 (pre ++ '"' :: (content ++ '"' :: post)) =
      (markWithin mark none false 0 ['"'] pre).or
        ((if hiddenBehind none false pre then none
          else (markInside? mark content).map (Text.width pre + 1 + ·)).or
        (headerFrom mark (some '"') (hiddenBehind none false pre || hides content)
          (Text.width pre + 1 + Text.width content + 1) post)) := by
  have hLine : ∀ c ∈ content, c ≠ '\n' := fun c hc => (h c hc).2
  rw [headerFrom_append, markWithin_quote hMark, Nat.zero_add, headerFrom_quote hMark,
    headerFrom_append, markWithin_quote hMark, headerFrom_quote hMark, hiddenBehind_line hLine]
  congr 2
  split
  · rename_i hHidden
    rw [hHidden, markWithin_hidden hLine]
  · rename_i hShown
    rw [Bool.eq_false_iff.mpr hShown, markInside?, ← markWithin_shift, Nat.add_zero,
      markWithin_quote hMark]

/-- On the lines that follow nothing is hidden. -/
theorem headerFrom_later (hMark : Whole mark) (pos : Nat) (post : List Char)
    (before before' : Option Char) (hidden hidden' : Bool) :
    headerFrom mark before hidden pos (post.dropWhile (· ≠ '\n')) =
      headerFrom mark before' hidden' pos (post.dropWhile (· ≠ '\n')) := by
  have hHead := List.head?_dropWhile_not (fun c : Char => decide (c ≠ '\n')) post
  cases hLater : post.dropWhile (· ≠ '\n') with
  | nil => rfl
  | cons c cs =>
      rw [hLater] at hHead
      obtain rfl : c = '\n' := by simpa using hHead
      rw [headerFrom_newline hMark, headerFrom_newline hMark]

/-- Behind a string it makes a difference whether the content hides what follows exactly if the mark
stands on the rest of the line. -/
theorem headerFrom_post (hMark : Whole mark) (pos : Nat) (post : List Char) :
    headerFrom mark (some '"') true pos post = headerFrom mark (some '"') false pos post ↔
      marksLine mark post = false := by
  have hLine : ∀ c ∈ post.takeWhile (· ≠ '\n'), c ≠ '\n' := fun c hc => by
    simpa using List.all_eq_true.mp List.all_takeWhile c hc
  have hSearch (hidden : Bool) : headerFrom mark (some '"') hidden pos post =
      (markWithin mark (some '"') hidden pos (post.dropWhile (· ≠ '\n'))
          (post.takeWhile (· ≠ '\n'))).or
        (headerFrom mark none false (pos + Text.width (post.takeWhile (· ≠ '\n')))
          (post.dropWhile (· ≠ '\n'))) := by
    conv => lhs; rw [← List.takeWhile_append_dropWhile (p := (· ≠ '\n')) (l := post)]
    rw [headerFrom_append, headerFrom_later hMark _ post _ none _ false]
  have hShift := markWithin_shift mark (some '"') false pos 0 (post.dropWhile (· ≠ '\n'))
    (post.takeWhile (· ≠ '\n'))
  rw [Nat.add_zero] at hShift
  rw [hSearch, hSearch, markWithin_hidden hLine, Option.none_or, marksLine,
    Option.isSome_eq_false_iff, Option.isNone_iff_eq_none, hShift]
  cases hFound : markWithin mark (some '"') false 0 (post.dropWhile (· ≠ '\n'))
      (post.takeWhile (· ≠ '\n')) with
  | none => simp
  | some x =>
      have hBounds := markWithin_bounds hFound
      simp only [Option.map_some, Option.some_or, reduceCtorEq, iff_false]
      intro hSame
      have hLater := headerFrom_bound hSame
      omega

variable {pre a b post : List Char}

/-- Where the mark does not stand before the string and nothing hides the string, the contents decide. -/
theorem indifferent_iff (hBefore : markWithin mark none false 0 ['"'] pre = none)
    (hShown : hiddenBehind none false pre = false) :
    Indifferent mark pre a b post ↔ markInside? mark a = markInside? mark b ∧
      (markInside? mark a = none → hides a = hides b ∨ marksLine mark post = false) := by
  constructor
  · intro h
    cases h with
    | before h =>
        rw [hBefore] at h
        cases h
    | hidden h => cases hShown.symm.trans h
    | inside ha hb => exact ⟨ha.trans hb.symm, fun hNone => by cases hNone.symm.trans ha⟩
    | behind ha hb hRest => exact ⟨ha.trans hb.symm, fun _ => hRest⟩
  · rintro ⟨hSame, hRest⟩
    cases hFound : markInside? mark a with
    | none => exact .behind hFound (hSame ▸ hFound) (hRest hFound)
    | some p => exact .inside hFound (hSame ▸ hFound)

/-- The search for a mark comes to the same for two contents of a string exactly if it is indifferent to
them. -/
theorem headerFrom_quoted_eq_iff (hMark : Whole mark) (ha : Quotable a) (hb : Quotable b)
    (hWidth : Text.width a = Text.width b) :
    headerFrom mark none false 0 (pre ++ '"' :: (a ++ '"' :: post)) =
      headerFrom mark none false 0 (pre ++ '"' :: (b ++ '"' :: post)) ↔
        Indifferent mark pre a b post := by
  rw [headerFrom_quoted hMark ha, headerFrom_quoted hMark hb, ← hWidth]
  cases hBefore : markWithin mark none false 0 ['"'] pre with
  | some p => exact ⟨fun _ => .before (by rw [hBefore]; rfl), fun _ => rfl⟩
  | none =>
    cases hShown : hiddenBehind none false pre with
    | true => exact ⟨fun _ => .hidden hShown, fun _ => rfl⟩
    | false =>
      rw [indifferent_iff hBefore hShown]
      simp only [Option.none_or, Bool.false_eq_true, if_false, Bool.false_or]
      have hPost := headerFrom_post hMark (Text.width pre + 1 + Text.width a + 1) post
      -- What stands in the string is found before anything that follows it.
      have hEarlier {content : List Char} {p : Nat} {hidden : Bool}
          (hContent : Text.width content = Text.width a) (h : markInside? mark content = some p) :
          headerFrom mark (some '"') hidden (Text.width pre + 1 + Text.width a + 1) post ≠
            some (Text.width pre + 1 + p) := by
        intro hFound
        have hInside := (markWithin_bounds h).2
        have hBehind := headerFrom_bound hFound
        omega
      cases hInA : markInside? mark a with
      | some p =>
        cases hInB : markInside? mark b with
        | some q => simp
        | none => simpa using (hEarlier rfl hInA).symm
      | none =>
        cases hInB : markInside? mark b with
        | some q => simpa using hEarlier hWidth.symm hInB
        | none =>
          simp only [Option.map_none, Option.none_or, true_and, true_implies]
          cases hides a with
          | true =>
            cases hides b with
            | true => simp
            | false => simpa using hPost
          | false =>
            cases hides b with
            | true => simpa using eq_comm.trans hPost
            | false => simp

/-! The search for a label is one for a mark as well. -/

/-- Text without a break in it. -/
def Unbroken (cs : List Char) : Prop := ∀ c ∈ cs, isBreak c = false

/-- The word that stands at the front of a text. -/
def frontWord (cs : List Char) : List Char := cs.takeWhile (!isBreak ·)

/-- A mark is found where it is the whole word. -/
theorem isPrefixOf_word (hMark : Unbroken mark) (cs : List Char) :
    (mark.isPrefixOf cs && (cs.drop mark.length).head?.all isBreak) = decide (frontWord cs = mark) := by
  induction mark generalizing cs with
  | nil =>
      cases cs with
      | nil => rfl
      | cons c cs => cases hBreak : isBreak c <;> simp [frontWord, hBreak]
  | cons m ms ih =>
      obtain ⟨hFirst, hRest⟩ := List.forall_mem_cons.mp hMark
      cases cs with
      | nil => rfl
      | cons c cs =>
          by_cases hSame : m = c
          · subst hSame
            have hWord : frontWord (m :: cs) = m :: frontWord cs := by simp [frontWord, hFirst]
            rw [hWord, List.isPrefixOf, List.length_cons, List.drop_succ_cons]
            simpa using ih hRest cs
          · have hOther : frontWord (c :: cs) ≠ m :: ms := by
              unfold frontWord
              intro hWord
              rw [List.takeWhile_cons] at hWord
              split at hWord
              · cases hWord
                exact hSame rfl
              · cases hWord
            simp [List.isPrefixOf, hSame, hOther]

theorem Run.label?_eq_some_iff {r : Run} {label : String} {stop : Nat} :
    r.label? = some (label, stop) ↔ label ≠ "" ∧ r.hidden = false ∧
      r.word = '>' :: '>' :: label.toList ∧ r.start + Text.width r.word = stop := by
  unfold Run.label?
  split
  · rename_i c cs hWord
    rw [hWord, List.cons.injEq, List.cons.injEq]
    cases r.hidden with
    | true => simp
    | false =>
        simp only [Bool.false_eq_true, if_false, Option.some.injEq, Prod.mk.injEq, true_and]
        constructor
        · rintro ⟨rfl, rfl⟩
          exact ⟨by simp, by simp, rfl⟩
        · rintro ⟨_, hLabel, rfl⟩
          exact ⟨by rw [hLabel, String.ofList_toList], rfl⟩
  · rename_i hOther
    refine ⟨nofun, fun ⟨hName, _, hWord, _⟩ => ?_⟩
    cases hLabel : label.toList with
    | nil => exact absurd (String.toList_eq_nil_iff.mp hLabel) hName
    | cons c cs =>
        rw [hLabel] at hWord
        exact (hOther c cs hWord).elim

/-- Where a word sets the label that is looked for. -/
def Run.sets? (r : Run) (name : String) : Option Nat :=
  if r.hidden = false ∧ r.word = '>' :: '>' :: name.toList then some (r.start + Text.width r.word) else none

theorem lookup_label? (r : Run) {name : String} (hName : name ≠ "") (found : List Run) :
    ((r :: found).filterMap Run.label?).lookup name =
      (r.sets? name).or ((found.filterMap Run.label?).lookup name) := by
  have hSets (stop : Nat) : r.sets? name = some stop ↔ r.label? = some (name, stop) := by
    rw [Run.label?_eq_some_iff, Run.sets?]
    split
    · rename_i hHere
      simp [hName, hHere]
    · rename_i hElse
      simp only [reduceCtorEq, false_iff]
      exact fun h => hElse ⟨h.2.1, h.2.2.1⟩
  rw [List.filterMap_cons]
  cases hLabel : r.label? with
  | none =>
      have hNone : r.sets? name = none := Option.eq_none_iff_forall_ne_some.mpr fun stop hStop => by
        cases hLabel.symm.trans ((hSets stop).mp hStop)
      rw [hNone, Option.none_or]
  | some entry =>
      obtain ⟨label, stop⟩ := entry
      dsimp only
      rw [List.lookup_cons]
      by_cases hSame : name = label
      · subst hSame
        rw [(hSets stop).mpr hLabel]
        simp
      · have hNone : r.sets? name = none := Option.eq_none_iff_forall_ne_some.mpr fun stop' hStop => by
          cases hLabel.symm.trans ((hSets stop').mp hStop)
          exact hSame rfl
        rw [hNone, beq_false_of_ne hSame, Option.none_or]

/-- The search goes on from between two words, or from within one. -/
theorem lookup_runsFrom {name : String} (hName : name ≠ "") (hWord : Unbroken name.toList)
    (cs : List Char) :
    (∀ before hidden pos, before.all isBreak = true →
      ((runsFrom none before hidden pos cs).filterMap Run.label?).lookup name =
        headerFrom ('>' :: '>' :: name.toList) before hidden pos cs) ∧
    ∀ r b hidden pos, isBreak b = false →
      ((runsFrom (some r) (some b) hidden pos cs).filterMap Run.label?).lookup name =
        (Run.sets? { r with word := r.word ++ frontWord cs } name).or
          (headerFrom ('>' :: '>' :: name.toList) (some b) hidden pos cs) := by
  have hMark : Unbroken ('>' :: '>' :: name.toList) := by
    refine List.forall_mem_cons.mpr ⟨by decide, List.forall_mem_cons.mpr ⟨by decide, hWord⟩⟩
  induction cs with
  | nil =>
      refine ⟨fun _ _ _ _ => rfl, fun r b hidden pos _ => ?_⟩
      change ([r].filterMap Run.label?).lookup name = _
      rw [lookup_label? r hName]
      simp [frontWord, headerFrom]
  | cons c cs ih =>
      have hSplit (before : Option Char) (hidden : Bool) (pos : Nat) :
          headerFrom ('>' :: '>' :: name.toList) before hidden pos (c :: cs) =
            if before.all isBreak && !hidden && decide (frontWord (c :: cs) = '>' :: '>' :: name.toList)
            then some (pos + Text.width ('>' :: '>' :: name.toList))
            else headerFrom ('>' :: '>' :: name.toList) (some c)
              (c ≠ '\n' && (hidden || (before = some '/' && c = '/'))) (pos + c.utf8Size) cs := by
        rw [headerFrom, Bool.and_assoc (_ && _), isPrefixOf_word hMark]
      cases hBreak : isBreak c with
      | true =>
          have hFront : frontWord (c :: cs) = [] := by simp [frontWord, hBreak]
          constructor
          · intro before hidden pos hBefore
            rw [hSplit, hFront, runsFrom]
            simpa [hBreak] using ih.1 (some c) _ _ hBreak
          · intro r b hidden pos hb
            rw [hSplit, hFront, runsFrom]
            simp only [hBreak, if_true, Option.toList_some, List.singleton_append]
            rw [lookup_label? r hName, ih.1 (some c) _ _ hBreak]
            simp
      | false =>
          have hFront : frontWord (c :: cs) = c :: frontWord cs := by simp [frontWord, hBreak]
          constructor
          · intro before hidden pos hBefore
            rw [hSplit, hFront, runsFrom]
            simp only [hBreak, Bool.false_eq_true, if_false, Option.getD_none]
            rw [ih.2 _ c _ _ hBreak, Run.sets?, hBefore]
            cases hidden with
            | true => simp
            | false =>
                by_cases hHere : c :: frontWord cs = '>' :: '>' :: name.toList
                · simp [hHere]
                · simp [hHere]
          · intro r b hidden pos hb
            rw [hSplit, hFront, runsFrom]
            simp only [hBreak, Bool.false_eq_true, if_false, Option.getD_some]
            rw [ih.2 _ c _ _ hBreak]
            simp [hb]

/-- A label is found where the word that sets it is found as a mark. -/
theorem label?_eq_headerFrom (s : Script) {name : String} (hName : name ≠ "")
    (hWord : Unbroken name.toList) :
    s.label? name = headerFrom ('>' :: '>' :: name.toList) none false 0 s.text :=
  (lookup_runsFrom hName hWord s.text).1 none false 0 rfl

/-- The header that announces an event. -/
def header? : EventName → Option (List Char)
  | .fixed m => some ('o' :: 'n' :: ' ' :: m.name.toList)
  | .named name => some ('o' :: 'n' :: ' ' :: name.toList)
  | .line => none

theorem eventStart?_eq_headerFrom (s : Script) {event : EventName} {header : List Char}
    (h : header? event = some header) :
    s.eventStart? event = headerFrom header none false 0 s.text := by
  have hOn (name : String) : ("on " ++ name).toList = 'o' :: 'n' :: ' ' :: name.toList := by
    rw [String.toList_append]
    rfl
  cases event with
  | fixed m =>
      cases h
      rw [eventStart?, hOn]
  | named name =>
      cases h
      rw [eventStart?, hOn]
  | line => cases h

theorem whole_header {event : EventName} {header : List Char} (h : header? event = some header)
    (hQuote : '"' ∉ header) : Whole header := by
  cases event with
  | fixed m =>
      cases h
      exact ⟨⟨_, _, rfl, by decide⟩, hQuote⟩
  | named name =>
      cases h
      exact ⟨⟨_, _, rfl, by decide⟩, hQuote⟩
  | line => cases h

theorem whole_label {name : String} (hQuote : '"' ∉ name.toList) : Whole ('>' :: '>' :: name.toList) :=
  ⟨⟨_, _, rfl, by decide⟩, by simpa using hQuote⟩

/-- A string of a script with another content of the same length. The number of blocks that are open is
the same at every offset. An event, or a label, whose name holds no quote is found at the same offset
exactly if the search for it is indifferent to the two contents: it stands before the string, or two
slashes do on its line, or it stands at the same place in both, or in neither and what follows on the
line is hidden by both or by none, as far as it matters. -/
theorem quoted_content (script : String) (post : List Char) (ha : Quotable a) (hb : Quotable b)
    (hWidth : Text.width a = Text.width b)
    (hPlain : zoneBehind .plain (some '"') pre = .plain) :
    let s : Script := ⟨script, pre ++ '"' :: (a ++ '"' :: post)⟩
    let t : Script := ⟨script, pre ++ '"' :: (b ++ '"' :: post)⟩
    (∀ pos, t.blockDepth pos = s.blockDepth pos) ∧
    (∀ event header, header? event = some header → '"' ∉ header →
      (t.eventStart? event = s.eventStart? event ↔ Indifferent header pre a b post)) ∧
    ∀ label, label ≠ "" → Unbroken label.toList → '"' ∉ label.toList →
      (t.label? label = s.label? label ↔ Indifferent ('>' :: '>' :: label.toList) pre a b post) := by
  intro s t
  refine ⟨fun pos => (depthAfter_quoted ha hb hWidth hPlain pos 0 post).symm, ?_, ?_⟩
  · intro event header hHeader hQuote
    rw [eventStart?_eq_headerFrom s hHeader, eventStart?_eq_headerFrom t hHeader, eq_comm]
    exact headerFrom_quoted_eq_iff (whole_header hHeader hQuote) ha hb hWidth
  · intro label hName hWord hQuote
    rw [label?_eq_headerFrom s hName hWord, label?_eq_headerFrom t hName hWord, eq_comm]
    exact headerFrom_quoted_eq_iff (whole_label hQuote) ha hb hWidth

/-- What stands before and behind the string in a script with a door. -/
def doorFront : List Char := "on hit \x7b\n say ".toList

def doorBack : List Char := " >>door\n accept\n\x7d\n".toList

def doorScript (content : String) : Script :=
  ⟨"door", doorFront ++ '"' :: (content.toList ++ '"' :: doorBack)⟩

/-- A header in the string is found as one, and two slashes in it hide the label; what stands before is
found as before, and no block opens or closes. -/
theorem quoted_content_door :
    (∀ pos, (doorScript "x xx xxxx xx").blockDepth pos = (doorScript "x on init //").blockDepth pos) ∧
    (doorScript "x xx xxxx xx").eventStart? (.fixed .hit) =
      (doorScript "x on init //").eventStart? (.fixed .hit) ∧
    (doorScript "x xx xxxx xx").eventStart? (.fixed .init) ≠
      (doorScript "x on init //").eventStart? (.fixed .init) ∧
    (doorScript "x xx xxxx xx").label? "door" ≠ (doorScript "x on init //").label? "door" := by
  have ha : Quotable "x on init //".toList := by decide
  have hb : Quotable "x xx xxxx xx".toList := by decide
  obtain ⟨hDepth, hEvents, _⟩ :=
    quoted_content "door" doorBack ha hb (by decide)
      (show zoneBehind .plain (some '"') doorFront = .plain by decide)
  have hHit : Indifferent "on hit".toList doorFront "x on init //".toList "x xx xxxx xx".toList
      doorBack := .before (by decide)
  exact ⟨hDepth, (hEvents (.fixed .hit) _ rfl (by decide)).mpr hHit, by decide, by decide⟩

end EntityScript.Script
