import Mathlib.Data.List.Nodup

/-! Lists whose entries are found by a key. -/
namespace EntityScript

variable {α κ : Type} [DecidableEq κ]

/-- Where no key repeats, what is found under a key is the entry that has it. -/
theorem find?_key_eq_some_iff {key : α → κ} {l : List α} (h : (l.map key).Nodup) {k : κ} {a : α} :
    l.find? (fun x => key x = k) = some a ↔ a ∈ l ∧ key a = k := by
  constructor
  · intro hFind
    exact ⟨List.mem_of_find?_eq_some hFind,
      of_decide_eq_true (List.find?_some (p := fun x => decide (key x = k)) hFind)⟩
  · rintro ⟨hMem, rfl⟩
    cases hFind : l.find? fun x => key x = key a with
    | none => exact absurd (decide_eq_true rfl) (List.find?_eq_none.mp hFind a hMem)
    | some b =>
        have hKey : key b = key a :=
          of_decide_eq_true (List.find?_some (p := fun x => decide (key x = key a)) hFind)
        rw [List.inj_on_of_nodup_map h (List.mem_of_find?_eq_some hFind) hMem hKey]

/-- Taking out one key leaves what stands under the others. -/
theorem lookup_filter_ne {β : Type} {a b : κ} (h : b ≠ a) (l : List (κ × β)) :
    (l.filter (·.1 ≠ a)).lookup b = l.lookup b := by
  induction l with
  | nil => rfl
  | cons x l ih =>
      obtain ⟨c, v⟩ := x
      by_cases hc : c = a
      · rw [List.filter_cons_of_neg (by simpa using hc), ih, List.lookup_cons,
          beq_false_of_ne (hc ▸ h)]
      · rw [List.filter_cons_of_pos (by simpa using hc), List.lookup_cons, List.lookup_cons, ih]

end EntityScript
