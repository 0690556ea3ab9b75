import EntityScript.Proofs.Runs

/-! Fuel does not change what a dispatch comes to. With more of it a dispatch either does the same, or
it goes on from where it ran out before. -/
namespace EntityScript

namespace Action

variable {α β : Type}

/-- The second action comes to what the first comes to, unless the first runs out of fuel. -/
def Below (x y : Action α) : Prop := ∀ s, x s = y s ∨ ∃ t, x s = .error .outOfFuel t

namespace Below

theorem refl (x : Action α) : Below x x := fun _ => .inl rfl

theorem trans {x y z : Action α} (hxy : Below x y) (hyz : Below y z) : Below x z := by
  intro s
  rcases hxy s with hSame | hOut
  · rcases hyz s with hSame' | ⟨t, hOut⟩
    · exact .inl (hSame.trans hSame')
    · exact .inr ⟨t, hSame.trans hOut⟩
  · exact .inr hOut

theorem bind {x y : Action α} {f g : α → Action β} (hxy : Below x y) (hfg : ∀ a, Below (f a) (g a)) :
    Below (x >>= f) (y >>= g) := by
  intro s
  rw [bind_apply, bind_apply]
  rcases hxy s with hSame | ⟨t, hOut⟩
  · rw [← hSame]
    cases hRun : x s with
    | ok a t => exact hfg a t
    | error h t => exact .inl rfl
  · rw [hOut]
    exact .inr ⟨t, rfl⟩

theorem bind_right {x : Action α} {f g : α → Action β} (hfg : ∀ a, Below (f a) (g a)) :
    Below (x >>= f) (x >>= g) := (refl x).bind hfg

theorem discard {x y : Action α} (hxy : Below x y) :
    Below (Functor.discard x) (Functor.discard y) := hxy.bind fun _ => .refl _

theorem ite {c : Prop} [Decidable c] {x y x' y' : Action α} (hx : Below x x') (hy : Below y y') :
    Below (if c then x else y) (if c then x' else y') := by
  split
  · exact hx
  · exact hy

theorem ok {x y : Action α} (h : Below x y) {a : α} {s t : Session} (hx : x s = .ok a t) :
    y s = .ok a t := by
  rcases h s with hSame | ⟨u, hOut⟩
  · exact hSame.symm.trans hx
  · cases hx.symm.trans hOut

end Below

end Action

namespace Rules

open EntityScript.Action (Below)

variable {rules : Rules}

theorem nested_below (script : Script) (event : EventName) {x y : Action Verdict}
    (h : Below x y) : Below (rules.nested script event x) (rules.nested script event y) :=
  .bind_right fun _ => .ite (.refl _) (.bind_right fun _ => h.bind fun _ => .refl _)

theorem deliverTo_below {run run' : Frame → Action Verdict} (h : ∀ f, Below (run f) (run' f))
    (d : Delivery) (script : Script) :
    Below (rules.deliverTo run d script) (rules.deliverTo run' d script) := by
  unfold deliverTo
  split
  · exact .refl _
  · exact nested_below _ _ (.bind_right fun _ => .ite (h _) (.refl _))

theorem deliverWith_below {run run' : Frame → Action Verdict} (h : ∀ f, Below (run f) (run' f))
    (d : Delivery) : Below (rules.deliverWith run d) (rules.deliverWith run' d) := by
  refine .bind_right fun s => ?_
  split
  · exact .refl _
  · refine .ite (.refl _) (.ite (.refl _) ?_)
    exact (deliverTo_below h d _).bind fun _ => .bind_right fun _ =>
      .ite (.refl _) (deliverTo_below h d _)

theorem pass_below {fuel fuel' : Nat} (h : ∀ f, Below (rules.run fuel f) (rules.run fuel' f))
    (f : Frame) : Below (rules.pass fuel f) (rules.pass fuel' f) := by
  refine .bind_right ?_
  rintro ⟨turn, g⟩
  cases turn with
  | finish v => exact .refl _
  | go stance => exact .refl _
  | send e stance => exact (deliverWith_below h _).discard.bind fun _ => .refl _

theorem run_below_succ (fuel : Nat) (f : Frame) :
    Below (rules.run fuel f) (rules.run (fuel + 1) f) := by
  induction fuel generalizing f with
  | zero => exact fun s => .inr ⟨s, rfl⟩
  | succ fuel ih =>
      rw [run_succ, run_succ]
      refine (pass_below ih f).bind fun r => ?_
      cases r with
      | inl v => exact .refl _
      | inr g => exact ih g

/-- A dispatch with more fuel comes to the same. -/
theorem run_below {fuel fuel' : Nat} (h : fuel ≤ fuel') (f : Frame) :
    Below (rules.run fuel f) (rules.run fuel' f) := by
  induction h with
  | refl => exact .refl _
  | step _ ih => exact ih.trans (run_below_succ _ f)

/-- A dispatch comes to a verdict exactly if its steps lead to a frame whose pass ends with it. -/
theorem run_ok_iff {f : Frame} {s t : Session} {v : Verdict} :
    (∃ fuel, rules.run fuel f s = .ok v t) ↔
      ∃ last fuel, Leads rules.Step (f, s) last ∧
        rules.pass fuel last.1 last.2 = .ok (.inl v) t := by
  refine ⟨fun ⟨_, h⟩ => run_ok h, ?_⟩
  rintro ⟨last, fuel, hSteps, hLast⟩
  change ∃ fuel, rules.run fuel (f, s).1 (f, s).2 = .ok v t
  generalize (f, s) = start at hSteps ⊢
  induction hSteps using Leads.head_induction with
  | refl =>
      refine ⟨fuel + 1, ?_⟩
      rw [run_succ, Action.bind_apply, hLast]
      rfl
  | @head x y hStep _ ih =>
      -- The pass and the rest were given different fuel; with the greater both come to the same.
      obtain ⟨fuel₁, hPass⟩ := hStep
      obtain ⟨fuel₂, hRun⟩ := ih
      refine ⟨max fuel₁ fuel₂ + 1, ?_⟩
      have hPass' := (pass_below (fun g => run_below (Nat.le_max_left fuel₁ fuel₂) g) x.1).ok hPass
      rw [run_succ, Action.bind_apply, hPass']
      exact (run_below (Nat.le_max_right fuel₁ fuel₂) y.1).ok hRun

theorem runLine_below {fuel fuel' : Nat} (h : fuel ≤ fuel') (script : Script) (entity : EntityId)
    (pos : Nat) (timer : Option String) :
    Below (rules.runLine fuel script entity pos timer) (rules.runLine fuel' script entity pos timer) :=
  .bind_right fun _ => .ite (nested_below _ _ (run_below h _)) (.refl _)

end Rules

end EntityScript
