import EntityScript.Text.LetterCase

/-! Lowering a text once more changes nothing: no lower-case form has a lower-case form of its own, and
none is the capital sigma, the one letter that is lowered by its neighbours. Which characters are lowered to a
given one can be read off the table. -/
namespace EntityScript.Text

variable {c d : Char} {cs before : List Char}

/-- The character stays as it is wherever it is lowered. -/
def Lowered (c : Char) : Prop := lowerChar c = [c] ∧ c ≠ 'Σ'

instance (c : Char) : Decidable (Lowered c) := inferInstanceAs (Decidable (_ ∧ _))

theorem CaseRun.find?_some {n : Nat} {runs : List CaseRun} {r : CaseRun} (h : find? n runs = some r) :
    r ∈ runs ∧ r.first ≤ n ∧ n ≤ r.last := by
  induction runs with
  | nil => cases h
  | cons first runs ih =>
      rw [find?] at h
      split at h
      · cases h
      rename_i hFirst
      split at h
      · rename_i hLast
        obtain rfl := Option.some.inj h
        exact ⟨.head _, by omega, hLast⟩
      · exact ⟨.tail _ (ih h).1, (ih h).2⟩

namespace CaseRun

/-- The largest number that a target may have. -/
def reach (r : CaseRun) : Nat := r.target + (r.last - r.first)

/-- The targets are characters, and none is one of those that have a rule of their own. -/
def Regular (r : CaseRun) : Prop :=
  (r.reach < 0xD800 ∨ 0xDFFF < r.target ∧ r.reach < 0x110000) ∧
    ∀ n ∈ ['\u0130', 'Σ', '\r'].map Char.toNat, r.reach < n ∨ n < r.target

instance (r : CaseRun) : Decidable r.Regular := inferInstanceAs (Decidable (_ ∧ _))

/-- `q` does not lower a target of `r`: it is elsewhere, or it lowers every other character and passes the
targets over. -/
def clear (r q : CaseRun) : Bool :=
  Nat.blt r.reach q.first || Nat.blt q.last r.target ||
    (q.step == 2 && (r.step == 2 || r.first == r.last) && (r.target + q.first) % 2 == 1)

theorem clear_skips {r q : CaseRun} {k : Nat} (h : r.clear q = true) (hStep : k % r.step = 0)
    (hReach : k ≤ r.last - r.first) (hFirst : q.first ≤ r.target + k) (hLast : r.target + k ≤ q.last) :
    (r.target + k - q.first) % q.step ≠ 0 := by
  simp only [clear, reach, Bool.or_eq_true, Nat.blt_eq, Bool.and_eq_true, beq_iff_eq] at h
  rcases h with (hBefore | hBehind) | ⟨⟨hTwo, hEven⟩, hOdd⟩
  · omega
  · omega
  · have hk : k % 2 = 0 := by
      rcases hEven with hEven | hSingle
      · rwa [hEven] at hStep
      · omega
    rw [hTwo]
    omega

end CaseRun

theorem lowerRuns_regular : ∀ r ∈ lowerRuns, r.Regular := by decide +kernel

theorem lowerRuns_clear : (lowerRuns.all fun r => lowerRuns.all r.clear) = true := by decide +kernel

theorem toNat_target {r : CaseRun} {k : Nat} (hRun : r ∈ lowerRuns) (hReach : k ≤ r.last - r.first) :
    (Char.ofNat (r.target + k)).toNat = r.target + k := by
  obtain ⟨hValid, -⟩ := lowerRuns_regular r hRun
  simp only [CaseRun.reach] at hValid
  rw [Char.ofNat, dif_pos (by unfold Nat.isValidChar; omega)]
  rfl

/-- No target of the table is lowered any further, and none is a carriage return. -/
theorem lowered_of_run {r : CaseRun} {k : Nat} (hRun : r ∈ lowerRuns) (hStep : k % r.step = 0)
    (hReach : k ≤ r.last - r.first) :
    Lowered (Char.ofNat (r.target + k)) ∧ Char.ofNat (r.target + k) ≠ '\r' := by
  obtain ⟨-, hApart⟩ := lowerRuns_regular r hRun
  simp only [CaseRun.reach] at hApart
  have hNat := toNat_target hRun hReach
  have hNe (c : Char) (hc : c ∈ ['\u0130', 'Σ', '\r']) : Char.ofNat (r.target + k) ≠ c := by
    intro hEq
    have hEq := congrArg Char.toNat hEq
    have hSpared := hApart _ (List.mem_map_of_mem hc)
    omega
  refine ⟨⟨?_, hNe _ (by simp)⟩, hNe _ (by simp)⟩
  rw [lowerChar, if_neg (hNe _ (by simp)), hNat]
  cases hFind : CaseRun.find? (r.target + k) lowerRuns with
  | none => rfl
  | some q =>
      obtain ⟨hMem, hFirst, hLast⟩ := CaseRun.find?_some hFind
      have hClear := List.all_eq_true.mp (List.all_eq_true.mp lowerRuns_clear r hRun) q hMem
      exact if_neg (CaseRun.clear_skips hClear hStep hReach hFirst hLast)

/-- The numbers of the characters that the table lowers to the character of the number. -/
def origins (n : Nat) : List Nat :=
  (lowerRuns.filter fun r => r.target ≤ n && n ≤ r.reach && (n - r.target) % r.step == 0).map
    fun r => r.first + (n - r.target)

/-- Every character but one is lowered to a single one, which is itself or has it among its origins. -/
theorem lowerChar_cases (c : Char) : lowerChar c = ['i', '\u0307'] ∨
    ∃ d, lowerChar c = [d] ∧ (d = c ∨ c.toNat ∈ origins d.toNat) := by
  unfold lowerChar
  split
  · exact .inl rfl
  split
  · exact .inr ⟨c, rfl, .inl rfl⟩
  rename_i r hRun
  split
  · rename_i hStep
    obtain ⟨hMem, hFirst, hLast⟩ := CaseRun.find?_some hRun
    have hReach : c.toNat - r.first ≤ r.last - r.first := by omega
    refine .inr ⟨_, rfl, .inr ?_⟩
    rw [toNat_target hMem hReach]
    refine List.mem_map.mpr ⟨r, List.mem_filter.mpr ⟨hMem, ?_⟩, ?_⟩
    · have hTarget := Nat.add_le_add_left hReach r.target
      simp [CaseRun.reach, hStep, hTarget]
    · rw [Nat.add_sub_cancel_left]
      omega
  · exact .inr ⟨c, rfl, .inl rfl⟩

/-- What the next character is lowered to: to two characters, or to one, which is itself, or has it among
its origins, or is a small sigma. -/
theorem lowerFrom_cons_cases (before : List Char) (c : Char) (cs : List Char) :
    lowerFrom before (c :: cs) = 'i' :: '\u0307' :: lowerFrom (c :: before) cs ∨
    ∃ d, lowerFrom before (c :: cs) = d :: lowerFrom (c :: before) cs ∧
      (d = c ∨ c.toNat ∈ origins d.toNat ∨ d ∈ ['ς', 'σ']) := by
  rw [lowerFrom]
  split
  · refine .inr ?_
    split
    · exact ⟨'ς', rfl, .inr (.inr (by simp))⟩
    · exact ⟨'σ', rfl, .inr (.inr (by simp))⟩
  · rcases lowerChar_cases c with hTwo | ⟨d, hOne, hOrigin⟩
    · exact .inl (by rw [hTwo]; rfl)
    · exact .inr ⟨d, by rw [hOne]; rfl, hOrigin.imp_right .inl⟩

/-- What a text begins with that is lowered to one that begins with the character. -/
theorem exists_cons_of_lowerFrom {lowered : List Char} (h : lowerFrom before cs = d :: lowered)
    (hOther : d ∉ ['i', 'ς', 'σ']) :
    ∃ c behind, cs = c :: behind ∧ lowered = lowerFrom (c :: before) behind ∧
      (d = c ∨ c.toNat ∈ origins d.toNat) := by
  cases cs with
  | nil => cases h
  | cons c cs =>
      rcases lowerFrom_cons_cases before c cs with hTwo | ⟨e, hOne, hOrigin⟩
      · obtain ⟨rfl, -⟩ := List.cons.inj (h.symm.trans hTwo)
        exact absurd List.mem_cons_self hOther
      · obtain ⟨rfl, hBehind⟩ := List.cons.inj (h.symm.trans hOne)
        rcases hOrigin with hSame | hOrigin | hSigma
        · exact ⟨c, cs, rfl, hBehind, .inl hSame⟩
        · exact ⟨c, cs, rfl, hBehind, .inr hOrigin⟩
        · exact absurd (.tail _ hSigma) hOther

/-- What a character other than the capital sigma is lowered to. -/
theorem lowered_of_mem (hSigma : c ≠ 'Σ') (h : d ∈ lowerChar c) :
    Lowered d ∧ (d = '\r' → c = '\r') := by
  unfold lowerChar at h
  split at h
  · simp only [List.mem_cons, List.not_mem_nil, or_false] at h
    rcases h with rfl | rfl
    · exact ⟨by decide, fun hReturn => absurd hReturn (by decide)⟩
    · exact ⟨by decide, fun hReturn => absurd hReturn (by decide)⟩
  rename_i hDotted
  split at h
  · rename_i hNone
    obtain rfl := List.mem_singleton.mp h
    exact ⟨⟨by simp [lowerChar, hDotted, hNone], hSigma⟩, id⟩
  rename_i r hRun
  split at h
  · rename_i hStep
    obtain ⟨hMem, hFirst, hLast⟩ := CaseRun.find?_some hRun
    obtain rfl := List.mem_singleton.mp h
    obtain ⟨hLowered, hReturn⟩ := lowered_of_run hMem hStep (by omega)
    exact ⟨hLowered, fun h => absurd h hReturn⟩
  · rename_i hStep
    obtain rfl := List.mem_singleton.mp h
    exact ⟨⟨by simp [lowerChar, hDotted, hRun, hStep], hSigma⟩, id⟩

theorem lowered_of_mem_lowerFrom (h : d ∈ lowerFrom before cs) :
    Lowered d ∧ (d = '\r' → '\r' ∈ cs) := by
  induction cs generalizing before with
  | nil => cases h
  | cons c cs ih =>
      rw [lowerFrom] at h
      rcases List.mem_append.mp h with hHere | hBehind
      · split at hHere
        · split at hHere
          · obtain rfl := List.mem_singleton.mp hHere
            exact ⟨by decide, fun hReturn => absurd hReturn (by decide)⟩
          · obtain rfl := List.mem_singleton.mp hHere
            exact ⟨by decide, fun hReturn => absurd hReturn (by decide)⟩
        · rename_i hSigma
          obtain ⟨hLowered, hReturn⟩ := lowered_of_mem hSigma hHere
          exact ⟨hLowered, fun h => hReturn h ▸ .head _⟩
      · exact ⟨(ih hBehind).1, fun h => .tail _ ((ih hBehind).2 h)⟩

theorem lowerFrom_lowered (h : ∀ c ∈ cs, Lowered c) (before : List Char) : lowerFrom before cs = cs := by
  induction cs generalizing before with
  | nil => rfl
  | cons c cs ih =>
      obtain ⟨hChar, hSigma⟩ := h c (.head _)
      rw [lowerFrom, ih fun d hd => h d (.tail _ hd)]
      simp [hSigma, hChar]

/-- Lowering is idempotent. -/
theorem lower_lower (s : String) : lower (lower s) = lower s := by
  unfold lower
  rw [String.toList_ofList, lowerFrom_lowered fun c hc => (lowered_of_mem_lowerFrom hc).1]

end EntityScript.Text
