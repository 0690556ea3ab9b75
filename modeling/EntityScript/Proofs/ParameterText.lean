import EntityScript.Event.Parameters

/-! Parameters and their text. What is written for a parameter is read as that parameter wherever the text goes
on, because quotes stand around the blanks that it holds. A quote itself cannot be written, and none is ever
read into a parameter. -/
namespace EntityScript.Parameters

open Text (isBlank)

variable {quoted : Bool} {word : Option (List Char)} {v cs : List Char}

/-- No parameter holds a quote. -/
def Quoteless (p : Parameters) : Prop := ∀ v ∈ p.values, '"' ∉ v.toList

/-- Between quotes a parameter goes on to the next quote, and outside to the next quote or blank. -/
theorem scan_append (hQuote : '"' ∉ v) (hBlank : quoted = true ∨ ∀ c ∈ v, isBlank c = false)
    (begun rest : List Char) :
    scan quoted (some begun) (v ++ rest) = scan quoted (some (begun ++ v)) rest := by
  induction v generalizing begun with
  | nil => simp
  | cons c v ih =>
      obtain ⟨hHere, hBehind⟩ := not_or.mp (mt List.mem_cons.mpr hQuote)
      have hGoesOn : (isBlank c && !quoted) = false := by
        rcases hBlank with hInside | hOutside
        · simp [hInside]
        · simp [hOutside c List.mem_cons_self]
      have hNext := ih hBehind (hBlank.imp_right fun hOutside d hd => hOutside d (.tail _ hd))
      rw [List.cons_append, scan, if_neg (Ne.symm hHere), hGoesOn, if_neg Bool.false_ne_true, hNext,
        Option.getD_some, List.append_assoc, List.singleton_append]

/-- What is written for a parameter is read as the parameter, which has not ended yet. -/
theorem scan_showValue {s : String} (h : '"' ∉ s.toList) (rest : List Char) :
    scan false .none ((showValue s).toList ++ rest) = scan false (some s.toList) rest := by
  unfold showValue
  split
  · have hInside : scan true (some []) (s.toList ++ '"' :: rest) =
        scan true (some ([] ++ s.toList)) ('"' :: rest) := scan_append h (.inl rfl) [] ('"' :: rest)
    simpa [scan] using hInside
  · rename_i hBare
    obtain ⟨hSome, hBlank⟩ : s ≠ "" ∧ ∀ c ∈ s.toList, isBlank c = false := by simpa using hBare
    obtain ⟨c, v, hText⟩ := List.exists_cons_of_ne_nil (mt String.toList_eq_nil_iff.mp hSome)
    rw [hText] at h hBlank ⊢
    have hFirst : scan false .none (c :: (v ++ rest)) = scan false (some [c]) (v ++ rest) := by
      have hOther : c ≠ '"' := fun hQuote => h (hQuote ▸ List.mem_cons_self)
      rw [scan, if_neg hOther, hBlank c List.mem_cons_self]
      rfl
    rw [List.cons_append, hFirst]
    exact scan_append (fun hQuote => h (.tail _ hQuote)) (.inr fun d hd => hBlank d (.tail _ hd)) [c] rest

/-- The blank behind a parameter ends it. -/
theorem scan_values (values : List String) (h : ∀ v ∈ values, '"' ∉ v.toList) :
    scan false .none (" ".intercalate (values.map showValue)).toList = values.map String.toList := by
  induction values with
  | nil => rfl
  | cons v values ih =>
      have hRead := scan_showValue (h v List.mem_cons_self)
      cases values with
      | nil => simpa [scan] using hRead []
      | cons next values =>
          have hRest := ih fun u hu => h u (.tail _ hu)
          rw [List.map_cons, List.map_cons, String.intercalate_cons_cons, String.append_assoc,
            String.toList_append, hRead, String.toList_append, ← List.map_cons]
          exact congrArg (v.toList :: ·) hRest

/-- A quote toggles and is not taken into the parameter. -/
theorem quote_notMem_scan (hBegun : ∀ w ∈ word, '"' ∉ w) : ∀ v ∈ scan quoted word cs, '"' ∉ v := by
  fun_induction scan quoted word cs with
  | case1 quoted word => simpa using hBegun
  | case2 quoted word cs ih =>
      refine ih fun w hw => ?_
      cases Option.mem_some.mp hw
      cases word with
      | none => exact List.not_mem_nil
      | some begun => exact hBegun begun rfl
  | case3 quoted word c cs _ _ ih =>
      intro v hv
      rcases List.mem_append.mp hv with hEnded | hRest
      · exact hBegun v (Option.mem_toList.mp hEnded)
      · exact ih nofun v hRest
  | case4 quoted word c cs hOther _ ih =>
      refine ih fun w hw => ?_
      cases Option.mem_some.mp hw
      have hHere : '"' ∉ [c] := by simpa using Ne.symm hOther
      cases word with
      | none => exact hHere
      | some begun => exact fun h => (List.mem_append.mp h).elim (hBegun begun rfl) hHere

theorem parse_quoteless (s : String) : (parse s).Quoteless := by
  intro v hv
  obtain ⟨cs, hcs, rfl⟩ := List.mem_map.mp hv
  rw [String.toList_ofList]
  exact quote_notMem_scan (by simp) cs hcs

theorem Quoteless.parse_shown {p : Parameters} (h : p.Quoteless) : parse p.shown = p := by
  rw [parse, shown, scan_values p.values h, List.map_map]
  simp [Function.comp_def]

/-- Reading what is written for parameters gives the parameters back exactly if none of them holds a quote.
So what is written for parameters that were read is read as the same ones. -/
theorem parse_shown_iff :
    (∀ p : Parameters, parse p.shown = p ↔ p.Quoteless) ∧
    ∀ s : String, (parse s).Quoteless ∧ parse (parse s).shown = parse s :=
  ⟨fun _ => ⟨fun h => h ▸ parse_quoteless _, Quoteless.parse_shown⟩,
    fun s => ⟨parse_quoteless s, (parse_quoteless s).parse_shown⟩⟩

-- Quotes may stand anywhere in a word, and a wide blank needs them as much as a narrow one.
example : (parse "a\"b \"c \"\" \"d\u3000\"").shown = "\"ab c\" \"\" \"d\u3000\"" := by decide +kernel

end EntityScript.Parameters
