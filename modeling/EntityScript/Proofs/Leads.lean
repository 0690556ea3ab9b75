/-! Where steps lead. -/
namespace EntityScript

/-- Steps lead from one state to another, in any number. -/
inductive Leads {α : Type} (step : α → α → Prop) (a : α) : α → Prop where
  | refl : Leads step a a
  | tail {b c : α} (prior : Leads step a b) (last : step b c) : Leads step a c

namespace Leads

variable {α : Type} {step step' : α → α → Prop} {a b c : α}

theorem head (first : step a b) (rest : Leads step b c) : Leads step a c := by
  induction rest with
  | refl => exact .tail .refl first
  | tail _ last ih => exact ih.tail last

theorem trans (first : Leads step a b) (rest : Leads step b c) : Leads step a c := by
  induction rest with
  | refl => exact first
  | tail _ last ih => exact ih.tail last

theorem mono (h : ∀ x y, step x y → step' x y) (run : Leads step a b) : Leads step' a b := by
  induction run with
  | refl => exact .refl
  | tail _ last ih => exact ih.tail (h _ _ last)

/-- What each step keeps holds wherever steps lead. -/
theorem keeps {P : α → Prop} (run : Leads step a b) (hStep : ∀ {x y}, P x → step x y → P y)
    (h : P a) : P b := by
  induction run with
  | refl => exact h
  | tail _ last ih => exact hStep ih last

/-- Induction from the last state back to the first. -/
theorem head_induction {motive : ∀ a, Leads step a c → Prop} {a : α} (run : Leads step a c)
    (refl : motive c .refl)
    (head : ∀ {a b} (first : step a b) (rest : Leads step b c), motive b rest →
      motive a (rest.head first)) : motive a run := by
  induction run with
  | refl => exact refl
  | @tail b c prior last ih =>
      exact ih (motive := fun a run => motive a (run.tail last)) (head last .refl refl)
        fun first rest => head first (rest.tail last)

/-- Either there are no steps, or there is a first one. -/
theorem cases_head (run : Leads step a c) : a = c ∨ ∃ b, step a b ∧ Leads step b c := by
  induction run using head_induction with
  | refl => exact .inl rfl
  | head first rest _ => exact .inr ⟨_, first, rest⟩

/-- Where each step can lead only to one state, one of two runs goes on where the other ends. -/
theorem comparable (hUnique : ∀ x y z, step x y → step x z → y = z) (hb : Leads step a b)
    (hc : Leads step a c) : Leads step b c ∨ Leads step c b := by
  induction hb with
  | refl => exact .inl hc
  | @tail b d _ last ih =>
      rcases ih with hOn | hBack
      · rcases hOn.cases_head with rfl | ⟨e, first, rest⟩
        · exact .inr (.tail .refl last)
        · rw [hUnique b d e last first]
          exact .inl rest
      · exact .inr (hBack.tail last)

end Leads

end EntityScript
