import EntityScript.Proofs.Sweep
import EntityScript.Tick
import EntityScript.Request

/-! What requests keep up. Between two requests the entities are entered and the timers run on the
ground, and no timer begins after the present. A request that does not come to its end leaves it for
a cause: that of a dispatch, or a timer whose next run no longer fits. -/
namespace EntityScript

namespace Session

/-- The session holds a timer that has begun and whose next run does not fit. -/
def Overdue (now : Duration) (s : Session) : Prop :=
  ∃ i t, s.world.timers.slot? i = some t ∧ t.due? = none ∧ t.start.nanos ≤ now.nanos

theorem Overdue.mono {now later : Duration} {s : Session} (h : s.Overdue now)
    (hLe : now.nanos ≤ later.nanos) : s.Overdue later := by
  obtain ⟨i, t, hHeld, hNone, hBegun⟩ := h
  exact ⟨i, t, hHeld, hNone, Nat.le_trans hBegun hLe⟩

/-- What requests keep up: dispatches and timers stay on the ground, and no timer begins after the
present. -/
structure Tended (ground : Script → Nat → Prop) (now : Duration) (s : Session) : Prop where
  grounded : s.Grounded ground
  clock : s.world.clock = now
  begun : ∀ i t, s.world.timers.slot? i = some t → t.start.nanos ≤ now.nanos

variable {ground : Script → Nat → Prop} {now : Duration} {s t : Session}

theorem Tended.evolves (hs : s.Tended ground now) (h : Session.Evolves (s.Starts ground) s t) :
    t.Tended ground now := by
  refine ⟨hs.grounded.evolves h, h.clock.trans hs.clock, fun i x hx => ?_⟩
  rcases h.timers i x hx with hOld | hStarted
  · exact hs.begun i x hOld
  · exact Nat.le_of_eq (congrArg Duration.nanos (hStarted.1.trans hs.clock))

theorem Tended.setTimer (hs : s.Tended ground now) (i : Nat) {slot : Option Timer}
    (hSlot : ∀ moved, slot = some moved →
      ∃ x, s.world.timers.slot? i = some x ∧ x.MovedOn now moved) :
    (s.setTimer i slot).Tended ground now := by
  refine ⟨⟨hs.grounded.scripts, fun j y hy => ?_⟩, hs.clock, fun j y hy => ?_⟩
  · rcases TimerSet.slot?_setSlot hy with ⟨_, hNew⟩ | hOld
    · obtain ⟨x, hx, hMoved⟩ := hSlot y hNew
      rw [hMoved.script, hMoved.pos]
      exact hs.grounded.timers i x hx
    · exact hs.grounded.timers j y hOld
  · rcases TimerSet.slot?_setSlot hy with ⟨_, hNew⟩ | hOld
    · obtain ⟨x, _, hMoved⟩ := hSlot y hNew
      exact hMoved.start
    · exact hs.begun j y hOld

theorem Tended.firing (hs : s.Tended ground now) {i : Nat} {x : Timer}
    (h : s.fires? now i = some x) : (s.firing now i x).Tended ground now := by
  obtain ⟨due, hDue, hReached⟩ := due_of_fires? h
  refine (hs.setTimer i fun moved hMoved => ⟨x, slot?_of_fires? h, ?_⟩).evolves (.of_same rfl rfl rfl)
  split at hMoved
  · cases hMoved
  · obtain ⟨_, hAdvanced, hOn⟩ := Timer.advanced?_of_due hDue hReached
    cases hAdvanced.symm.trans hMoved
    exact hOn

end Session

namespace Action

variable {ground : Script → Nat → Prop} {now : Duration} {α β : Type}

/-- The action leaves a session as requests keep it up, or it halts for a cause. -/
def Leaves (ground : Script → Nat → Prop) (now : Duration) (act : Action α) (s : Session) : Prop :=
  match act s with
  | .ok _ t => t.Tended ground now
  | .error h t => h.Excused ground ∨ (h = .fault .timeOverflow ∧ t.Overdue now)

/-- The action keeps up what requests keep up. -/
def Tends (ground : Script → Nat → Prop) (now : Duration) (act : Action α) : Prop :=
  ∀ s, s.Tended ground now → Leaves ground now act s

theorem Leaves.bind {x : Action α} {f : α → Action β} {s : Session} {later : Duration}
    (hx : Leaves ground now x s) (hLe : now.nanos ≤ later.nanos)
    (hf : ∀ a t, t.Tended ground now → Leaves ground later (f a) t) :
    Leaves ground later (x >>= f) s := by
  unfold Leaves at hx
  rw [Leaves, bind_apply]
  cases hRun : x s with
  | ok a t =>
      rw [hRun] at hx
      exact hf a t hx
  | error h t =>
      rw [hRun] at hx
      exact hx.imp_right fun hOverdue => ⟨hOverdue.1, hOverdue.2.mono hLe⟩

namespace Tends

theorem pure (a : α) : Tends ground now (Pure.pure a) := fun _ hs => hs

theorem bind {x : Action α} {f : α → Action β} (hx : Tends ground now x)
    (hf : ∀ a, Tends ground now (f a)) : Tends ground now (x >>= f) :=
  fun s hs => (hx s hs).bind (Nat.le_refl _) hf

theorem get : Tends ground now (MonadState.get : Action Session) := fun _ hs => hs

theorem update {f : Session → Session}
    (hf : ∀ s : Session, s.Tended ground now → (f s).Tended ground now) :
    Tends ground now (modify f : Action Unit) := fun s hs => hf s hs

theorem discard {x : Action α} (hx : Tends ground now x) :
    Tends ground now (Functor.discard x) := hx.bind fun _ => .pure _

theorem forM {f : α → Action Unit} (hf : ∀ a, Tends ground now (f a)) (as : List α) :
    Tends ground now (as.forM f) := by
  induction as with
  | nil => exact .pure _
  | cons a as ih => exact (hf a).bind fun _ => ih

end Tends

end Action

namespace Rules

open EntityScript.Action (Tends)

variable {rules : Rules} {ground : Script → Nat → Prop} {now : Duration}

end Rules

end EntityScript
