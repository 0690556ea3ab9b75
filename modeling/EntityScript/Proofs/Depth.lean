import EntityScript.Proofs.Handlers
import EntityScript.Proofs.Stirring

/-! How deep dispatches are inside one another. Only a dispatch that is entered raises the depth, and it
lowers it again where it returns, whatever came of it; no command changes it. So the depth always is the
number of dispatches that are inside one another, and none is entered beyond the limit. -/
namespace EntityScript

namespace Session

/-- Neither looks nor deeds change the depth, nor does the end of an entity. -/
theorem Look.depth {script : Script} {s : Session} {f : Session → Session} (h : s.Look script f) :
    (f s).world.depth = s.world.depth := by
  cases h <;> rfl

theorem Deed.depth {inv : Invocation} {s : Session} {f : Session → Session} (h : s.Deed inv f) :
    (f s).world.depth = s.world.depth := by
  cases h with
  | enqueue => rw [enqueue_world]
  | _ => rfl

theorem destroy_depth (id : EntityId) (s : Session) :
    (s.destroy id).2.world.depth = s.world.depth := by
  unfold destroy
  cases s.world.entities.get? id <;> rfl

end Session

namespace Act

variable {α β : Type} {Q : α → Prop} {inv : Invocation} {registry : Registry}

/-- The progress that an act leaves, at a value or at a halt. -/
def state (act : Act α) (inv : Invocation) (p : Progress) : Progress :=
  match act inv p with
  | .ok _ q => q
  | .error _ q => q

/-- The act leaves the depth as it is, also where it halts. -/
def KeepsDepth (act : Act α) : Prop :=
  ∀ inv p, (act.state inv p).session.world.depth = p.session.world.depth

theorem serves_depth (inv : Invocation) (n : Nat) :
    Serves (Session.Only fun s => s.world.depth = n) inv inv := by
  apply Serves.of_kept
  · intro s f hs hLook
    rw [hLook.depth, hs]
  · intro s f hs hDeed
    rw [hDeed.depth, hs]

namespace KeepsDepth

theorem pure (a : α) : KeepsDepth (Pure.pure a : Act α) := fun _ _ => rfl

theorem bind {x : Act α} {f : α → Act β} (hx : KeepsDepth x) (hf : ∀ a, KeepsDepth (f a)) :
    KeepsDepth (x >>= f) := by
  intro inv p
  have hFirst := hx inv p
  unfold state at hFirst ⊢
  rw [bind_apply]
  cases hRun : x inv p with
  | ok a q =>
      rw [hRun] at hFirst
      exact (hf a inv q).trans hFirst
  | error halt q =>
      rw [hRun] at hFirst
      exact hFirst

/-- What only looks and does deeds leaves the depth as it is. -/
theorem of_twin {act : Act α}
    (h : ∀ inv n, Twin (Session.Only fun s => s.world.depth = n) inv inv Q act) : KeepsDepth act := by
  intro inv p
  have hTwin := h inv p.session.world.depth
  unfold state
  cases hRun : act inv p with
  | ok a q => exact (hTwin.kept rfl hRun).2
  | error halt q => exact hTwin.kept_halt rfl hRun

end KeepsDepth

end Act

/-- The command leaves the depth as it is. -/
def Command.KeepsDepth (c : Command) : Prop := Act.KeepsDepth c.run

namespace Command

open Act

theorem runDestroy_keepsDepth : Act.KeepsDepth runDestroy := by
  apply Act.KeepsDepth.bind (.of_twin fun inv n => (serves_depth inv n).word.mono fun _ _ => True.intro)
  intro w
  apply KeepsDepth.bind (.of_twin fun inv n => (serves_depth inv n).resolve? w)
  intro found
  cases found with
  | none => exact .bind (.of_twin fun inv n => (serves_depth inv n).token _ _ _) fun _ => .pure _
  | some id => exact fun _ p => p.session.destroy_depth id

theorem builtins_keepsDepth {c : Command} (h : c ∈ builtins) : c.KeepsDepth := by
  unfold KeepsDepth
  rcases builtins_cases h with ⟨_, hRun⟩ | hTwin
  · rw [hRun]
    exact runDestroy_keepsDepth
  · exact .of_twin fun inv n => hTwin (serves_depth inv n)

end Command

/-- Every command is one that sessions have, or at least one that leaves the depth as it is. -/
def Registry.KeepsDepth (r : Registry) : Prop :=
  ∀ e ∈ r.entries, e.2 ∈ Command.builtins ∨ e.2.KeepsDepth

theorem Registry.KeepsDepth.find? {r : Registry} (hr : r.KeepsDepth) {word : String} {c : Command}
    (h : r.find? word = some c) : c.KeepsDepth := by
  rcases hr _ (Registry.mem_of_find? h) with hBuiltin | hKeeps
  · exact Command.builtins_keepsDepth hBuiltin
  · exact hKeeps

namespace Act

variable {registry : Registry} (hCommands : registry.KeepsDepth)

theorem obey_keepsDepth {c : Command} (hCommand : c.KeepsDepth) (word : String) :
    KeepsDepth (obey c word) := by
  apply KeepsDepth.bind (.of_twin fun inv n => mayGive_twin (serves_depth inv n).toSees c)
  intro allowed
  cases allowed with
  | true =>
      apply KeepsDepth.bind fun _ _ => rfl
      intro inv
      split
      · exact .pure _
      · exact hCommand
  | false => exact .of_twin fun inv n => passOver_twin (serves_depth inv n).toWatches word

theorem answer_keepsDepth (stance : Stance) (r : Reply) : KeepsDepth (answer stance r) :=
  .of_twin fun _ _ => answer_twin ⟨_, _, rfl⟩ stance r

include hCommands

theorem follow_keepsDepth (stance : Stance) (word : String) :
    KeepsDepth (follow registry stance word) := by
  unfold follow
  cases hCommand : registry.find? word with
  | some c => exact .bind (obey_keepsDepth (hCommands.find? hCommand) word) fun _ => answer_keepsDepth _ _
  | none =>
      split
      · contradiction
      · rename_i name _ _
        apply KeepsDepth.bind fun _ _ => rfl
        intro inv
        split
        · exact .pure _
        · exact .bind (.of_twin fun inv n => Command.runTimer_twin (serves_depth inv n) _)
            fun _ => answer_keepsDepth _ _
      · exact .of_twin fun inv n => passWord_twin (serves_depth inv n).toWatches stance word

/-- No turn changes the depth. -/
theorem turn_keepsDepth (stance : Stance) : KeepsDepth (turn registry stance) := by
  apply KeepsDepth.bind (.of_twin fun inv n => (serves_depth inv n).command _)
  intro word
  split
  · exact .of_twin fun inv n => endText_twin (serves_depth inv n).toSees stance
  · exact .bind (.of_twin fun inv n => announce_twin (serves_depth inv n).toSees word) fun _ =>
      follow_keepsDepth hCommands stance word

end Act

theorem Frame.perform_state {α : Type} (f : Frame) (act : Act α) (s : Session) :
    (f.perform act).state s = (act.state f.invocation ⟨s, f.pos, f.calls⟩).session := by
  unfold perform Action.state Act.state
  dsimp only
  cases act f.invocation ⟨s, f.pos, f.calls⟩ <;> rfl

theorem Act.KeepsDepth.perform {α : Type} {act : Act α} (hAct : act.KeepsDepth) (f : Frame)
    (s : Session) : ((f.perform act).state s).world.depth = s.world.depth := by
  rw [Frame.perform_state]
  exact hAct f.invocation ⟨s, f.pos, f.calls⟩

/-- Where the action returns, the depth is what it was before; where it halts, the depth may have grown
up to the limit. -/
def Action.Balanced {α : Type} (limit : Nat) (act : Action α) : Prop :=
  ∀ s, match act s with
    | .ok _ t => t.world.depth = s.world.depth
    | .error _ t => s.world.depth ≤ t.world.depth ∧ t.world.depth ≤ max s.world.depth limit

namespace Action.Balanced

variable {α β : Type} {limit : Nat}

theorem pure (a : α) : Balanced limit (Pure.pure a : Action α) := fun _ => rfl

theorem bind {x : Action α} {f : α → Action β} (hx : Balanced limit x)
    (hf : ∀ a, Balanced limit (f a)) : Balanced limit (x >>= f) := by
  intro s
  have hFirst := hx s
  rw [bind_apply]
  cases hRun : x s with
  | ok a t =>
      rw [hRun] at hFirst
      have hRest := hf a t
      dsimp only at hFirst ⊢
      rw [hFirst] at hRest
      exact hRest
  | error halt t =>
      rw [hRun] at hFirst
      exact hFirst

theorem discard {x : Action α} (hx : Balanced limit x) : Balanced limit (Functor.discard x) :=
  hx.bind fun _ => .pure _

/-- Going on with the state. -/
theorem here {f : Session → Action β} (hf : ∀ s, Balanced limit (f s)) :
    Balanced limit ((MonadState.get : Action Session) >>= f) := fun s => hf s s

theorem ite {c : Prop} [Decidable c] {x y : Action α} (hx : Balanced limit x)
    (hy : Balanced limit y) : Balanced limit (if c then x else y) := by
  split
  · exact hx
  · exact hy

theorem perform {act : Act α} (hAct : act.KeepsDepth) (f : Frame) : Balanced limit (f.perform act) := by
  intro s
  have hSame := hAct.perform f s
  unfold Action.state at hSame
  cases hRun : f.perform act s with
  | ok a t =>
      rw [hRun] at hSame
      exact hSame
  | error halt t =>
      rw [hRun] at hSame
      dsimp only at hSame ⊢
      omega

theorem of_ok {x : Action α} (hx : Balanced limit x) {s t : Session} {a : α} (h : x s = .ok a t) :
    t.world.depth = s.world.depth := by
  have hSame := hx s
  rw [h] at hSame
  exact hSame

end Action.Balanced

namespace Rules

open EntityScript.Action (Balanced)

variable {rules : Rules}

/-- A dispatch that is entered raises the depth and lowers it again. -/
theorem nested_balanced {script : Script} {event : EventName} {act : Action Verdict}
    (hAct : Balanced rules.config.maxDepth act) :
    Balanced rules.config.maxDepth (rules.nested script event act) := by
  intro s
  by_cases hDeep : rules.config.maxDepth ≤ s.world.depth
  · rw [nested_abort rules script event act hDeep]
    rfl
  · have hInner := hAct (s.onWorld fun w => { w with depth := w.depth + 1 })
    rw [nested_enter rules script event act hDeep, Action.bind_apply]
    cases hRun : act (s.onWorld fun w => { w with depth := w.depth + 1 }) with
    | ok v t =>
        rw [hRun] at hInner
        change t.world.depth = s.world.depth + 1 at hInner
        change t.world.depth - 1 = s.world.depth
        omega
    | error halt t =>
        rw [hRun] at hInner
        change s.world.depth + 1 ≤ t.world.depth ∧
          t.world.depth ≤ max (s.world.depth + 1) rules.config.maxDepth at hInner
        change s.world.depth ≤ t.world.depth ∧
          t.world.depth ≤ max s.world.depth rules.config.maxDepth
        omega

theorem openEvent_keepsDepth : Act.KeepsDepth Act.openEvent :=
  .of_twin fun inv n => Act.openEvent_twin (Act.serves_depth inv n).toWatches

theorem deliverTo_balanced {run : Frame → Action Verdict}
    (hRun : ∀ f, Balanced rules.config.maxDepth (run f)) (d : Delivery) (script : Script) :
    Balanced rules.config.maxDepth (rules.deliverTo run d script) := by
  unfold deliverTo
  split
  · exact .pure _
  · apply nested_balanced
    apply Balanced.bind (.perform openEvent_keepsDepth _)
    intro result
    exact .ite (hRun _) (.pure _)

theorem deliverWith_balanced {run : Frame → Action Verdict}
    (hRun : ∀ f, Balanced rules.config.maxDepth (run f)) (d : Delivery) :
    Balanced rules.config.maxDepth (rules.deliverWith run d) := by
  unfold deliverWith
  apply Balanced.here
  intro s
  split
  · exact .pure _
  · apply Balanced.ite (.pure _)
    apply Balanced.ite (.pure _)
    apply Balanced.bind (deliverTo_balanced hRun d _)
    intro v
    exact .here fun t => .ite (.pure _) (deliverTo_balanced hRun d _)

variable (hCommands : rules.registry.KeepsDepth)

include hCommands

theorem run_balanced (fuel : Nat) (f : Frame) : Balanced rules.config.maxDepth (rules.run fuel f) := by
  induction fuel generalizing f with
  | zero => exact fun _ => ⟨Nat.le_refl _, Nat.le_max_left _ _⟩
  | succ fuel ih =>
      have hProceed (g : Frame) : Balanced rules.config.maxDepth (rules.proceed fuel g) :=
        .here fun s => .ite (ih g) (.pure _)
      rw [run_turn]
      apply Balanced.bind (.perform (Act.turn_keepsDepth hCommands f.stance) f)
      intro result
      obtain ⟨turn, g⟩ := result
      cases turn with
      | finish v => exact .pure v
      | go stance => exact hProceed _
      | send e stance => exact .bind (deliverWith_balanced ih _).discard fun _ => hProceed _

theorem deliver_balanced (fuel : Nat) (d : Delivery) :
    Balanced rules.config.maxDepth (rules.deliver fuel d) :=
  deliverWith_balanced (run_balanced hCommands fuel) d

theorem runLine_balanced (fuel : Nat) (script : Script) (entity : EntityId) (pos : Nat)
    (timer : Option String) :
    Balanced rules.config.maxDepth (rules.runLine fuel script entity pos timer) :=
  .here fun _ => .ite (nested_balanced (run_balanced hCommands fuel _)) (.pure _)

end Rules

/-- A part of a dispatch: an event on its way to an entity, its hearing by one of the scripts there, the
header of the event, the commands of a frame; or a line. -/
inductive Stage where
  | event (fuel : Nat) (d : Delivery)
  | hearing (fuel : Nat) (d : Delivery) (script : Script)
  | header (fuel : Nat) (f : Frame)
  | frame (fuel : Nat) (f : Frame)
  | line (fuel : Nat) (script : Script) (entity : EntityId) (pos : Nat) (timer : Option String)

/-- Carries out a part of a dispatch. -/
def Stage.perform (rules : Rules) : Stage → Action Verdict
  | event fuel d => rules.deliver fuel d
  | hearing fuel d script => rules.deliverTo (rules.run fuel) d script
  | header fuel f => do
    let (opened, f) ← f.perform Act.openEvent
    if opened then rules.run fuel f else return .accept
  | frame fuel f => rules.run fuel f
  | line fuel script entity pos timer => rules.runLine fuel script entity pos timer

/-- The session one level deeper. -/
def Session.deeper (s : Session) : Session := s.onWorld fun w => { w with depth := w.depth + 1 }

namespace Rules

/-- The frame in which the block of an event begins. -/
def eventFrame (rules : Rules) (d : Delivery) (script : Script) (pos : Nat) : Frame where
  invocation := {
    script, entity := d.target, sender := d.sender, event := d.event
    parameters := d.parameters, dry := d.dry, suppressions := rules.suppressions }
  pos
  stance := ⟨false, .event 1⟩

/-- The frame in which a line begins. -/
def lineFrame (rules : Rules) (script : Script) (entity : EntityId) (pos : Nat)
    (timer : Option String) : Frame where
  invocation := { script, entity, event := .line, timer, suppressions := rules.suppressions }
  pos
  stance := ⟨true, .event 1⟩

/-- A dispatch that begins in the session is not cut off: what it does is done one level deeper. -/
def Enters (rules : Rules) (script : Script) (event : EventName) (s : Session) : Prop :=
  ∀ act, rules.nested script event act s = (do
    let verdict ← act
    modify <| Session.onWorld fun w => { w with depth := w.depth - 1 }
    return verdict : Action Verdict) s.deeper

/-- `rules.Meets x s n u`: in the course of `x`, begun in the session `s`, the session is `u` at a moment
at which `n` dispatches more are inside one another than at the beginning. The moments are the beginning
and the end of every part, and the end of every turn; those before a halt are among them. -/
inductive Meets (rules : Rules) : Stage → Session → Nat → Session → Prop where
  | begins (x : Stage) (s : Session) : Meets rules x s 0 s
  | returns {x : Stage} {s t : Session} {v : Verdict} (h : x.perform rules s = .ok v t) :
      Meets rules x s 0 t
  | overriding {fuel n : Nat} {d : Delivery} {s u : Session} {e : Entity}
      (hTarget : s.world.entities.get? d.target = some e)
      (h : Meets rules (.hearing fuel d e.overriding) s n u) : Meets rules (.event fuel d) s n u
  | own {fuel n : Nat} {d : Delivery} {s t u : Session} {e : Entity} {v : Verdict}
      (hTarget : s.world.entities.get? d.target = some e)
      (hOverriding : (Stage.hearing fuel d e.overriding).perform rules s = .ok v t)
      (h : Meets rules (.hearing fuel d e.script) t n u) : Meets rules (.event fuel d) s n u
  | entered {fuel pos n : Nat} {d : Delivery} {script : Script} {s u : Session}
      (hHeader : script.eventStart? d.event = some pos) (hEnters : rules.Enters script d.event s)
      (h : Meets rules (.header fuel (rules.eventFrame d script pos)) s.deeper n u) :
      Meets rules (.hearing fuel d script) s (n + 1) u
  | opened {fuel n : Nat} {f g : Frame} {s t u : Session}
      (hOpened : f.perform Act.openEvent s = .ok (true, g) t)
      (h : Meets rules (.frame fuel g) t n u) : Meets rules (.header fuel f) s n u
  | turned (fuel : Nat) (f : Frame) (s : Session) :
      Meets rules (.frame (fuel + 1) f) s 0
        ((f.perform (Act.turn rules.registry f.stance)).state s)
  | sent {fuel n : Nat} {f g : Frame} {e : Send} {stance : Stance} {s t u : Session}
      (hTurn : f.perform (Act.turn rules.registry f.stance) s = .ok (.send e stance, g) t)
      (h : Meets rules (.event fuel {
        sender := some f.invocation.entity, target := e.target, event := e.event
        parameters := e.parameters }) t n u) : Meets rules (.frame (fuel + 1) f) s n u
  | passed {fuel n : Nat} {f g : Frame} {s t u : Session}
      (hPass : rules.pass fuel f s = .ok (.inr g) t) (h : Meets rules (.frame fuel g) t n u) :
      Meets rules (.frame (fuel + 1) f) s n u
  | line {fuel pos n : Nat} {script : Script} {entity : EntityId} {timer : Option String}
      {s u : Session} (hLive : s.world.entities.contains entity = true)
      (hEnters : rules.Enters script .line s)
      (h : Meets rules (.frame fuel (rules.lineFrame script entity pos timer)) s.deeper n u) :
      Meets rules (.line fuel script entity pos timer) s (n + 1) u

variable {rules : Rules}

/-- A dispatch is cut off exactly where the limit is reached. -/
theorem enters_iff {script : Script} {event : EventName} {s : Session} :
    rules.Enters script event s ↔ s.world.depth < rules.config.maxDepth := by
  constructor
  · intro hEnters
    apply Nat.lt_of_not_le
    intro hDeep
    -- A dispatch that would halt inside tells: cut off, it returns.
    have hHalts := hEnters (throw .outOfFuel)
    rw [nested_abort rules script event _ hDeep] at hHalts
    cases hHalts
  · intro hDepth act
    exact nested_enter rules script event act (Nat.not_le_of_lt hDepth)

open EntityScript.Action (Balanced)

variable (hCommands : rules.registry.KeepsDepth)

include hCommands

theorem stage_balanced (x : Stage) : Balanced rules.config.maxDepth (x.perform rules) := by
  cases x with
  | event fuel d => exact deliver_balanced hCommands fuel d
  | hearing fuel d script => exact deliverTo_balanced (run_balanced hCommands fuel) d script
  | header fuel f =>
      apply Balanced.bind (.perform openEvent_keepsDepth f)
      intro result
      exact .ite (run_balanced hCommands fuel _) (.pure _)
  | frame fuel f => exact run_balanced hCommands fuel f
  | line fuel script entity pos timer => exact runLine_balanced hCommands fuel script entity pos timer

theorem pass_balanced (fuel : Nat) (f : Frame) :
    Balanced rules.config.maxDepth (rules.pass fuel f) := by
  have hOn (g : Frame) (stance : Stance) : Balanced rules.config.maxDepth (goOn g stance) :=
    fun _ => rfl
  apply Balanced.bind (.perform (Act.turn_keepsDepth hCommands f.stance) f)
  intro result
  obtain ⟨turn, g⟩ := result
  cases turn with
  | finish v => exact .pure _
  | go stance => exact hOn g stance
  | send e stance =>
      exact .bind (deliverWith_balanced (run_balanced hCommands fuel) _).discard fun _ => hOn g stance

/-- At every moment the depth tells how many dispatches are inside one another, and it is within the
limit. -/
theorem Meets.depth {x : Stage} {s u : Session} {n : Nat} (h : rules.Meets x s n u)
    (hEntry : s.world.depth ≤ rules.config.maxDepth) :
    u.world.depth = s.world.depth + n ∧ u.world.depth ≤ rules.config.maxDepth := by
  induction h with
  | begins x s => exact ⟨rfl, hEntry⟩
  | returns hRun =>
      have hSame := (stage_balanced hCommands _).of_ok hRun
      omega
  | overriding _ _ ih => exact ih hEntry
  | own _ hFirst _ ih =>
      have hSame := (stage_balanced hCommands _).of_ok hFirst
      have hRest := ih (by omega)
      omega
  | @entered _ _ _ _ _ s _ _ hEnters _ ih =>
      have hDepth := enters_iff.mp hEnters
      have hDeeper : s.deeper.world.depth = s.world.depth + 1 := rfl
      have hRest := ih (by omega)
      omega
  | opened hOpened _ ih =>
      have hSame := (Balanced.perform openEvent_keepsDepth _ : Balanced 0 _).of_ok hOpened
      have hRest := ih (by omega)
      omega
  | turned fuel f s =>
      have hSame := (Act.turn_keepsDepth hCommands f.stance).perform f s
      omega
  | sent hTurn _ ih =>
      have hSame := (Balanced.perform (Act.turn_keepsDepth hCommands _) _ : Balanced 0 _).of_ok hTurn
      have hRest := ih (by omega)
      omega
  | passed hPass _ ih =>
      have hSame := (pass_balanced hCommands _ _).of_ok hPass
      have hRest := ih (by omega)
      omega
  | @line _ _ _ _ _ _ s _ _ hEnters _ ih =>
      have hDepth := enters_iff.mp hEnters
      have hDeeper : s.deeper.world.depth = s.world.depth + 1 := rfl
      have hRest := ih (by omega)
      omega

omit hCommands in
theorem about_balanced (id : EntityId) {act : Action Verdict}
    (hAct : Balanced rules.config.maxDepth act) : Balanced rules.config.maxDepth (about id act) :=
  .here fun _ => .ite (hAct.bind fun _ => .pure _) (.pure _)

theorem maintains_within :
    rules.Maintains fun w => 0 < w.depth ∧ w.depth ≤ rules.config.maxDepth where
  enter w hDepth := ⟨Nat.succ_pos w.depth, hDepth⟩
  turn stance inv p turn q hp hTurn := by
    have hSame := Act.turn_keepsDepth hCommands stance inv p
    unfold Act.state at hSame
    rw [hTurn] at hSame
    dsimp only at hSame
    rw [hSame]
    exact hp
  deliver fuel d s v t hs hRun := by
    rw [(deliver_balanced hCommands fuel d).of_ok hRun]
    exact hs

/-- The depth of a world that is entered within the limit always is how many dispatches are inside one
another. At no moment is it beyond the limit, and a dispatch is cut off exactly where the limit is
reached. No command is obeyed at another depth than from one up to the limit: handlers that do anything
else there make no difference. Whatever returns leaves the depth as it was, and a halt leaves it within
the limit. -/
theorem depth_exact {s : Session} (hEntry : s.world.depth ≤ rules.config.maxDepth) :
    (∀ x n u, rules.Meets x s n u →
      u.world.depth = s.world.depth + n ∧ u.world.depth ≤ rules.config.maxDepth ∧
      ∀ script event, rules.Enters script event u ↔ s.world.depth + n < rules.config.maxDepth) ∧
    (∀ h : Handlers, h.FaithfulWhere (fun w => 0 < w.depth ∧ w.depth ≤ rules.config.maxDepth) →
      (∀ fuel d, rules.deliverBy h fuel d = rules.deliver fuel d) ∧
      ∀ fuel script entity pos timer,
        rules.runLineBy h fuel script entity pos timer = rules.runLine fuel script entity pos timer) ∧
    (∀ (x : Stage) v t, x.perform rules s = .ok v t → t.world.depth = s.world.depth) ∧
    (∀ fuel d a t, rules.send fuel d s = .ok a t → t.world.depth = s.world.depth) ∧
    (∀ fuel id event a t, rules.peek fuel id event s = .ok a t → t.world.depth = s.world.depth) ∧
    (∀ fuel id text a t, rules.execute fuel id text s = .ok a t → t.world.depth = s.world.depth) ∧
    ∀ x : Stage, ((x.perform rules).state s).world.depth ≤ rules.config.maxDepth := by
  have hSend (fuel : Nat) (d : Delivery) : Balanced rules.config.maxDepth (rules.send fuel d) :=
    about_balanced d.target (deliver_balanced hCommands fuel d)
  refine ⟨?_, ?_, ?_, ?_, ?_, ?_, ?_⟩
  · intro x n u hMeets
    obtain ⟨hNesting, hWithin⟩ := hMeets.depth hCommands hEntry
    refine ⟨hNesting, hWithin, fun script event => ?_⟩
    rw [← hNesting]
    exact enters_iff
  · intro h hFaithful
    have hWithin := maintains_within hCommands
    exact ⟨deliverBy_eq_where hWithin hFaithful, runLineBy_eq_where hWithin hFaithful⟩
  · intro x v t hRun
    exact (stage_balanced hCommands x).of_ok hRun
  · intro fuel d a t hRun
    exact (hSend fuel d).of_ok hRun
  · intro fuel id event a t hRun
    exact (hSend fuel _).of_ok hRun
  · intro fuel id text a t hRun
    have hNoted : Balanced rules.config.maxDepth
        (modify (Session.noteScript (.ofRaw consoleName text)) : Action Unit) := fun _ => rfl
    have hLine := runLine_balanced hCommands fuel (.ofRaw consoleName text) id 0 none
    exact (about_balanced id (hNoted.bind fun _ => hLine)).of_ok hRun
  · intro x
    have hEnd := stage_balanced hCommands x s
    unfold Action.state
    cases hRun : x.perform rules s with
    | ok v t =>
        rw [hRun] at hEnd
        dsimp only at hEnd ⊢
        omega
    | error halt t =>
        rw [hRun] at hEnd
        dsimp only at hEnd ⊢
        omega

/-- Rules that allow two dispatches inside one another. -/
def narrow : Rules := { plain with config := { seed := some 0, maxDepth := 2 } }

/-- An entity that answers an event by sending itself the same event. -/
def echoSession : Session :=
  (Session.spawn { className := "npc", script := some (.ofNormal "npc"
    "on init \x7b\n sendevent init self\n accept\n\x7d\n") } ⟨.ofConfig narrow.config, .silent, #[]⟩).2

omit hCommands in
set_option maxRecDepth 100000 in
/-- The third dispatch is cut off, the two others accept, and the depth is zero again. -/
theorem depth_exact_echo :
    ∃ t, narrow.deliver 9 { target := ⟨0⟩, event := .fixed .init } echoSession = .ok .accept t ∧
      t.log.any (fun l => l.level = .error) = true ∧ t.world.depth = 0 := by
  have hRun : Result.passes (fun v t => v = .accept ∧ t.log.any (fun l => l.level = .error) = true)
      (narrow.deliver 9 { target := ⟨0⟩, event := .fixed .init } echoSession) = true := by
    decide +kernel
  have hCommands : narrow.registry.KeepsDepth := fun e he => .inl (Registry.builtins_ofBuiltins e he).1
  obtain ⟨v, t, hDeliver, hPasses⟩ := Result.exists_of_passes hRun
  obtain ⟨rfl, hCut⟩ := of_decide_eq_true hPasses
  have hExact := depth_exact hCommands (s := echoSession) (by decide)
  exact ⟨t, hDeliver, hCut, hExact.2.2.1 (.event 9 _) _ t hDeliver⟩

end Rules

end EntityScript
