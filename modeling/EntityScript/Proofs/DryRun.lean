import EntityScript.Proofs.Alike

/-! Dry runs. A dry run only glances at the session: besides the log and what the game is asked, it
moves the random numbers on, if a script asks for one. Unless it refuses, it is the dispatch itself. -/
namespace EntityScript

namespace Generator

theorem below_seed (bound : Float) (attempts : Nat) (g : Generator) :
    (below bound attempts g).2.seed = g.seed := by
  induction attempts generalizing g with
  | zero => rfl
  | succ attempts ih =>
      unfold below
      dsimp only
      split
      · rfl
      · exact ih _

theorem below_used (bound : Float) (attempts : Nat) (g : Generator) :
    g.used ≤ (below bound attempts g).2.used := by
  induction attempts generalizing g with
  | zero => exact Nat.le_refl _
  | succ attempts ih =>
      have hUnit : g.used ≤ g.unit.2.used := Nat.le_add_right _ _
      unfold below
      dsimp only
      split
      · exact hUnit
      · exact Nat.le_trans hUnit (ih _)

end Generator

theorem World.draw_random {w : World} {bound x : Float} {random : Generator} (hBound : ¬ bound ≤ 0)
    (h : w.draw bound = .ok (x, { w with random })) : random = (w.random.below bound 1000).2 := by
  unfold draw at h
  rw [if_neg hBound] at h
  split at h
  · exact (congrArg (fun r => match r with
      | .ok drawn => drawn.2.random
      | .error (_ : Fault) => w.random) h).symm
  · cases h

theorem Host.modify_modify (f g : HostRecord → HostRecord) (h : Host) :
    (h.modify f).modify g = h.modify fun r => g (f r) := by
  cases h <;> rfl

namespace Session

/-- What a dry run may leave of a session, where `asks` tells the bounds of the random numbers that its
scripts ask for: the world is as it was, but for the place in the stream of random numbers, and the game
was only asked for system variables. -/
structure Glanced (asks : Float → Prop) (s t : Session) : Prop where
  world : t.world = { s.world with random := t.world.random }
  seed : t.world.random.seed = s.world.random.seed
  used : s.world.random.used ≤ t.world.random.used
  still : (∀ bound, asks bound → bound ≤ 0) → t.world.random = s.world.random
  host : ∃ asked, t.host = s.host.modify fun r => { r with queries := r.queries ++ asked }

variable {asks asks' : Float → Prop} {s t u : Session}

namespace Glanced

theorem of_same (hWorld : t.world = s.world) (hHost : t.host = s.host) : Glanced asks s t where
  world := by rw [hWorld]
  seed := by rw [hWorld]
  used := Nat.le_of_eq (by rw [hWorld])
  still _ := by rw [hWorld]
  host := by
    refine ⟨[], ?_⟩
    rw [hHost]
    cases s.host with
    | silent => rfl
    | recording r => simp [Host.modify]

theorem refl (asks : Float → Prop) (s : Session) : Glanced asks s s := of_same rfl rfl

theorem trans (h : Glanced asks s t) (h' : Glanced asks t u) : Glanced asks s u where
  world := h'.world.trans (congrArg (fun w => { w with random := u.world.random }) h.world)
  seed := h'.seed.trans h.seed
  used := Nat.le_trans h.used h'.used
  still hNone := (h'.still hNone).trans (h.still hNone)
  host := by
    obtain ⟨asked, hAsked⟩ := h.host
    obtain ⟨more, hMore⟩ := h'.host
    refine ⟨asked ++ more, ?_⟩
    rw [hMore, hAsked, Host.modify_modify]
    simp only [List.append_assoc]

theorem mono (h : Glanced asks s t) (hAsks : ∀ bound, asks bound → asks' bound) :
    Glanced asks' s t :=
  ⟨h.world, h.seed, h.used, fun hNone => h.still fun bound hBound => hNone bound (hAsks bound hBound),
    h.host⟩

/-- What is glanced at one level deeper is glanced at from here. -/
theorem shallower
    (h : Glanced asks (s.onWorld fun w => { w with depth := w.depth + 1 }) t) :
    Glanced asks s (t.onWorld fun w => { w with depth := w.depth - 1 }) := by
  have hDepth : t.world.depth = s.world.depth + 1 := congrArg World.depth h.world
  constructor
  · simp only [onWorld]
    rw [hDepth, Nat.add_sub_cancel]
    exact congrArg (fun w => { w with depth := s.world.depth }) h.world
  · exact h.seed
  · exact h.used
  · exact h.still
  · exact h.host

end Glanced

/-- Looking at a session is glancing at it. -/
theorem Look.glanced {script : Script} {f : Session → Session} (h : s.Look script f) :
    Glanced script.AsksFor s (f s) := by
  cases h with
  | write => exact .of_same rfl rfl
  | ask name => exact ⟨rfl, rfl, Nat.le_refl _, fun _ => rfl, [name], rfl⟩
  | draw hBound hAsks hDraw =>
      have hRandom := World.draw_random hBound hDraw
      constructor
      · rfl
      · exact (congrArg Generator.seed hRandom).trans (Generator.below_seed _ _ _)
      · exact Nat.le_trans (Generator.below_used _ _ _)
          (Nat.le_of_eq (congrArg Generator.used hRandom).symm)
      · exact fun hNone => absurd (hNone _ hAsks) hBound
      · exact (Glanced.refl script.AsksFor s).host

/-- The bounds of the random numbers that the scripts of an entity ask for. -/
def AskedBy (s : Session) (id : EntityId) (bound : Float) : Prop :=
  ∃ e, s.world.entities.get? id = some e ∧ (e.overriding.AsksFor bound ∨ e.script.AsksFor bound)

theorem Glanced.responses (h : Glanced asks s t) :
    t.host.record.responses = s.host.record.responses := by
  obtain ⟨asked, hAsked⟩ := h.host
  rw [hAsked]
  exact Host.modify_responses (f := fun r => { r with queries := r.queries ++ asked }) (fun _ => rfl) _

/-- A session that was glanced at without a random number is as it was, to all that follows. -/
theorem Glanced.alike (h : Glanced asks s t) (hRandom : t.world.random = s.world.random) :
    Alike s t := by
  refine ⟨by rw [h.world, hRandom], ?_, h.responses⟩
  obtain ⟨asked, hAsked⟩ := h.host
  rw [hAsked]
  exact Host.modify_answers (f := fun r => { r with queries := r.queries ++ asked }) (fun _ => rfl) _

end Session

/-- A dry run beside the dispatch itself: the dry run comes to a value that refuses, or both come to the
same. Nothing is said of a dry run that halts. -/
inductive Rehearsed {σ α : Type} (R : σ → Prop) (refuses Q : α → Prop) :
    EStateM.Result Halt σ α → EStateM.Result Halt σ α → Prop where
  | refused {a : α} {t : σ} {x : EStateM.Result Halt σ α} (hRefuses : refuses a) (hState : R t) :
      Rehearsed R refuses Q (.ok a t) x
  | same {a : α} {t : σ} (hValue : Q a) (hState : R t) : Rehearsed R refuses Q (.ok a t) (.ok a t)
  | halted {h : Halt} {t : σ} {x : EStateM.Result Halt σ α} : Rehearsed R refuses Q (.error h t) x

namespace Rehearsed

variable {α β : Type} {refuses Q : α → Prop} {refuses' Q' : β → Prop} {R R' : Session → Prop}

theorem mono {x y : EStateM.Result Halt Session α} (h : Rehearsed R refuses Q x y)
    (hState : ∀ t, R t → R' t) : Rehearsed R' refuses Q x y := by
  cases h with
  | refused hRefuses hR => exact .refused hRefuses (hState _ hR)
  | same hValue hR => exact .same hValue (hState _ hR)
  | halted => exact .halted

theorem ite {c : Prop} [Decidable c] {x x' y y' : Action α} {s : Session}
    (hx : c → Rehearsed R refuses Q (x s) (x' s)) (hy : ¬ c → Rehearsed R refuses Q (y s) (y' s)) :
    Rehearsed R refuses Q ((if c then x else y) s) ((if c then x' else y') s) := by
  by_cases h : c
  · rw [if_pos h, if_pos h]
    exact hx h
  · rw [if_neg h, if_neg h]
    exact hy h

theorem action_bind {x x' : Action α} {f f' : α → Action β} {s : Session}
    (hx : Rehearsed R refuses Q (x s) (x' s))
    (hRefuses : ∀ a t, refuses a → R t → ∃ b t', refuses' b ∧ R' t' ∧ f a t = .ok b t')
    (hf : ∀ a t, Q a → R t → Rehearsed R' refuses' Q' (f a t) (f' a t)) :
    Rehearsed R' refuses' Q' ((x >>= f) s) ((x' >>= f') s) := by
  rw [Action.bind_apply, Action.bind_apply]
  generalize x s = r at hx ⊢
  generalize x' s = r' at hx ⊢
  cases hx with
  | refused hNo hState =>
      obtain ⟨b, t', hNo', hState', hRun⟩ := hRefuses _ _ hNo hState
      dsimp only
      rw [hRun]
      exact .refused hNo' hState'
  | same hValue hState => exact hf _ _ hValue hState
  | halted => exact .halted

end Rehearsed

namespace Act

variable {α β : Type} {P : Session → Prop} {inv inv' : Invocation} {p : Progress}

/-- What goes the same way whether dry or not. -/
theorem Twin.rehearsed {refuses Q : α → Prop} {act : Act α}
    (h : Twin (Session.Only P) inv inv' Q act) (hp : P p.session) :
    Rehearsed (fun q => P q.session) refuses Q (act inv p) (act inv' p) := by
  have hBoth := h p p ⟨⟨rfl, hp⟩, rfl, rfl⟩
  generalize act inv p = r at hBoth ⊢
  generalize act inv' p = r' at hBoth ⊢
  cases hBoth with
  | @ok a q q' hValue hBeside =>
      obtain ⟨⟨hSession, hHeld⟩, hPos, hCalls⟩ := hBeside
      obtain ⟨_, _, _⟩ := q'
      cases hSession
      cases hPos
      cases hCalls
      exact .same hValue hHeld
  | error => exact .halted

theorem rehearsed_bind {refuses Q : α → Prop} {refuses' Q' : β → Prop} {x : Act α} {f : α → Act β}
    (hx : Rehearsed (fun q => P q.session) refuses Q (x inv p) (x inv' p))
    (hRefuses : ∀ a q, refuses a → P q.session →
      ∃ b q', refuses' b ∧ P q'.session ∧ f a inv q = .ok b q')
    (hf : ∀ a q, Q a → P q.session →
      Rehearsed (fun q => P q.session) refuses' Q' (f a inv q) (f a inv' q)) :
    Rehearsed (fun q => P q.session) refuses' Q' ((x >>= f) inv p) ((x >>= f) inv' p) := by
  rw [bind_apply, bind_apply]
  generalize x inv p = r at hx ⊢
  generalize x inv' p = r' at hx ⊢
  cases hx with
  | refused hNo hState =>
      obtain ⟨b, q', hNo', hState', hRun⟩ := hRefuses _ _ hNo hState
      dsimp only
      rw [hRun]
      exact .refused hNo' hState'
  | same hValue hState => exact hf _ _ hValue hState
  | halted => exact .halted

theorem Twin.rehearsed_bind {Q : α → Prop} {refuses' Q' : β → Prop} {x : Act α} {f : α → Act β}
    (hx : Twin (Session.Only P) inv inv' Q x) (hp : P p.session)
    (hf : ∀ a q, Q a → P q.session →
      Rehearsed (fun q => P q.session) refuses' Q' (f a inv q) (f a inv' q)) :
    Rehearsed (fun q => P q.session) refuses' Q' ((x >>= f) inv p) ((x >>= f) inv' p) := by
  have hFirst : Rehearsed (fun q => P q.session) (fun _ => False) Q (x inv p) (x inv' p) :=
    hx.rehearsed hp
  exact Act.rehearsed_bind hFirst (fun _ _ h => h.elim) hf

variable {asks : Float → Prop} {s : Session} {registry : Registry}

/-- Whether dry or not, a dispatch sees the same. -/
theorem watches_glanced (dry : Bool) (hAsks : ∀ bound, inv.script.AsksFor bound → asks bound) :
    Watches (Session.Only (Session.Glanced asks s)) inv (inv.under dry inv.suppressions) := by
  apply Sees.watches
  refine ⟨⟨_, _, rfl⟩, ?_, ?_, ?_⟩
  · intro t t' h
    rw [h.1]
  · intro t t' h
    rw [h.1]
  · exact fun h hLook => h.map fun hs => hs.trans (hLook.glanced.mono hAsks)

/-- An act that only looks at the session leaves it glanced at. -/
theorem glances {Q : α → Prop} {act : Act α} {a : α} {q : Progress}
    (h : ∀ {S : Session → Session → Prop}, Watches S inv inv → Twin S inv inv Q act)
    (hRun : act inv p = .ok a q) : Session.Glanced inv.script.AsksFor p.session q.session :=
  ((h (watches_glanced inv.dry fun _ hBound => hBound)).kept (.refl _ _) hRun).2

/-- In a session that is alike, an act that only looks goes the same way. -/
theorem ok_alike {Q : α → Prop} {act : Act α} {a : α} {p' q : Progress}
    (h : ∀ {S : Session → Session → Prop}, Watches S inv inv → Twin S inv inv Q act)
    (hp : p.Beside Session.Alike p') (hRun : act inv p = .ok a q) :
    ∃ q', act inv p' = .ok a q' ∧ q.session.Alike q'.session := by
  have hSees : Sees Session.Alike inv (inv.under inv.dry inv.suppressions) :=
    ⟨⟨_, _, rfl⟩, fun h => h.world, fun h => h.answers, fun h => h.look⟩
  have hBoth := h hSees.watches p p' hp
  rw [hRun] at hBoth
  generalize hRun' : act inv p' = r' at hBoth
  cases hBoth with
  | ok _ hBeside => exact ⟨_, rfl, hBeside.session⟩

variable (hDry : inv.dry = true) (hAsks : ∀ bound, inv.script.AsksFor bound → asks bound)

include hDry hAsks

/-- A command with side effects is refused; every other does what it always does. -/
theorem obey_rehearsed {c : Command} (hCommand : c ∈ Command.builtins) (word : String)
    (hp : Session.Glanced asks s p.session) :
    Rehearsed (fun q => Session.Glanced asks s q.session) (· = .finish .refuse) Reply.Quiet
      (obey c word inv p) (obey c word (inv.under false inv.suppressions) p) := by
  have hWatches := watches_glanced (s := s) false hAsks
  apply (mayGive_twin hWatches.toSees c).rehearsed_bind hp
  intro allowed q _ hq
  cases allowed with
  | false => exact ((passOver_twin hWatches word).mono fun _ h => h.1).rehearsed hq
  | true =>
      simp only [if_true]
      rw [invocation_bind, invocation_bind, hDry]
      cases hHarmless : c.harmless with
      | false => exact .refused rfl hq
      | true => exact (Command.harmless_twin hWatches hCommand hHarmless).rehearsed hq

theorem follow_rehearsed (hRegistry : registry.OfBuiltins) (stance : Stance) (word : String)
    (hp : Session.Glanced asks s p.session) :
    Rehearsed (fun q => Session.Glanced asks s q.session) (· = .finish .refuse) Turn.Quiet
      (follow registry stance word inv p)
      (follow registry stance word (inv.under false inv.suppressions) p) := by
  have hWatches := watches_glanced (s := s) false hAsks
  unfold follow
  cases hCommand : registry.find? word with
  | some c =>
      apply rehearsed_bind (obey_rehearsed hDry hAsks (hRegistry.find? hCommand).1 word hp)
      · rintro _ q rfl hq
        exact ⟨_, q, rfl, hq, rfl⟩
      · intro r q hQuiet hq
        exact ((answer_twin hWatches.under stance r).mono fun _ h => h hQuiet).rehearsed hq
  | none =>
      cases hTimer : behind? "timer" word.toList with
      | some name =>
          dsimp only
          rw [invocation_bind, invocation_bind, hDry]
          exact .refused rfl hp
      | none => exact ((passWord_twin hWatches stance word).mono fun _ h => h.1).rehearsed hp

/-- A turn of a dry run refuses, or it is the turn of the dispatch itself. -/
theorem turn_rehearsed (hRegistry : registry.OfBuiltins) (stance : Stance)
    (hp : Session.Glanced asks s p.session) :
    Rehearsed (fun q => Session.Glanced asks s q.session) (· = .finish .refuse) Turn.Quiet
      (turn registry stance inv p) (turn registry stance (inv.under false inv.suppressions) p) := by
  have hWatches := watches_glanced (s := s) false hAsks
  apply (hWatches.command _).rehearsed_bind hp
  intro word q _ hq
  split
  · exact ((endText_twin hWatches.toSees stance).mono fun _ h => h.1).rehearsed hq
  · apply (announce_twin hWatches.toSees word).rehearsed_bind hq
    intro _ q _ hq
    exact follow_rehearsed hDry hAsks hRegistry stance word hq

end Act

/-- The frame of the dispatch itself, in place of a dry one. -/
def Frame.wet (f : Frame) : Frame :=
  { f with invocation := f.invocation.under false f.invocation.suppressions }

theorem Frame.perform_rehearsed {α β : Type} {P : Session → Prop} {refuses Q : α → Prop}
    {refuses' Q' : β → Prop} {f : Frame} {act : Act α} {k k' : α × Frame → Action β} {s : Session}
    (hAct : Rehearsed (fun q => P q.session) refuses Q (act f.invocation ⟨s, f.pos, f.calls⟩)
      (act f.wet.invocation ⟨s, f.pos, f.calls⟩))
    (hRefuses : ∀ a g t, refuses a → P t → ∃ b t', refuses' b ∧ P t' ∧ k (a, g) t = .ok b t')
    (hk : ∀ a g t, g.invocation = f.invocation → Q a → P t →
      Rehearsed P refuses' Q' (k (a, g) t) (k' (a, g.wet) t)) :
    Rehearsed P refuses' Q' ((f.perform act >>= k) s) ((f.wet.perform act >>= k') s) := by
  rw [Action.bind_apply, Action.bind_apply, perform, perform]
  dsimp only [wet] at hAct ⊢
  generalize act f.invocation ⟨s, f.pos, f.calls⟩ = r at hAct ⊢
  generalize act (f.invocation.under false f.invocation.suppressions) ⟨s, f.pos, f.calls⟩ = r'
    at hAct ⊢
  cases hAct with
  | refused hNo hState =>
      obtain ⟨b, t', hNo', hState', hRun⟩ := hRefuses _ _ _ hNo hState
      dsimp only
      rw [hRun]
      exact .refused hNo' hState'
  | same hValue hState => exact hk _ _ _ rfl hValue hState
  | halted => exact .halted

namespace Rules

variable {rules : Rules} {asks : Float → Prop} {s : Session}

theorem run_rehearsed (hRegistry : rules.registry.OfBuiltins) (fuel : Nat) {f : Frame} {t : Session}
    (hDry : f.invocation.dry = true) (hAsks : ∀ bound, f.invocation.script.AsksFor bound → asks bound)
    (hs : s.Glanced asks t) : Rehearsed (s.Glanced asks) (· = .refuse) (fun _ => True)
      (rules.run fuel f t) (rules.run fuel f.wet t) := by
  induction fuel generalizing f t with
  | zero => exact .halted
  | succ fuel ih =>
      rw [run_turn, run_turn]
      refine Frame.perform_rehearsed (Act.turn_rehearsed hDry hAsks hRegistry f.stance hs) ?_ ?_
      · rintro _ g u rfl hu
        exact ⟨_, u, rfl, hu, rfl⟩
      · intro turn g u hSame hQuiet hu
        cases turn with
        | finish v => exact .same True.intro hu
        | send e stance => exact hQuiet.elim
        | go stance =>
            change Rehearsed _ _ _ (rules.proceed fuel { g with stance } u)
              (rules.proceed fuel (Frame.wet { g with stance }) u)
            unfold proceed
            rw [Action.get_bind, Action.get_bind]
            apply Rehearsed.ite
            · intro _
              exact ih (f := { g with stance }) (by rw [← hDry, hSame]) (by rw [hSame]; exact hAsks) hu
            · exact fun _ => .same True.intro hu

/-- Behind a dispatch that is entered, the world is as deep as before. -/
theorem nested_rehearsed (script : Script) (event : EventName) {act act' : Action Verdict}
    (hAct : ∀ t : Session, Rehearsed (t.Glanced asks) (· = .refuse) (fun _ => True) (act t) (act' t)) :
    Rehearsed (s.Glanced asks) (· = .refuse) (fun _ => True) (rules.nested script event act s)
      (rules.nested script event act' s) := by
  by_cases hDeep : rules.config.maxDepth ≤ s.world.depth
  · rw [nested_abort rules script event act hDeep, nested_abort rules script event act' hDeep]
    exact .same True.intro (.of_same rfl rfl)
  · rw [nested_enter rules script event act hDeep, nested_enter rules script event act' hDeep]
    apply Rehearsed.action_bind (hAct _)
    · rintro _ t rfl ht
      exact ⟨_, _, rfl, ht.shallower, rfl⟩
    · exact fun v t _ ht => .same True.intro ht.shallower

section

variable (hRegistry : rules.registry.OfBuiltins) (fuel : Nat) {d : Delivery} (hDry : d.dry = true)

include hRegistry hDry

theorem deliverTo_rehearsed {script : Script} (hAsks : ∀ bound, script.AsksFor bound → asks bound) :
    Rehearsed (s.Glanced asks) (· = .refuse) (fun _ => True)
      (rules.deliverTo (rules.run fuel) d script s)
      (rules.deliverTo (rules.run fuel) { d with dry := false } script s) := by
  unfold deliverTo
  cases script.eventStart? d.event with
  | none => exact .same True.intro (.refl _ _)
  | some header =>
      apply nested_rehearsed
      intro t
      let f : Frame := {
        invocation := {
          script, entity := d.target, sender := d.sender, event := d.event
          parameters := d.parameters, dry := d.dry, suppressions := rules.suppressions }
        pos := header, stance := ⟨false, .event 1⟩ }
      have hWatches : Act.Watches (Session.Only (Session.Glanced asks t)) f.invocation
          f.wet.invocation := Act.watches_glanced false hAsks
      have hOpened : Rehearsed (fun q => t.Glanced asks q.session) (fun _ => False) (fun _ => True)
          (Act.openEvent f.invocation ⟨t, f.pos, f.calls⟩)
          (Act.openEvent f.wet.invocation ⟨t, f.pos, f.calls⟩) :=
        (Act.openEvent_twin hWatches).rehearsed (.refl _ _)
      refine Frame.perform_rehearsed (f := f) hOpened (fun _ _ _ h => h.elim) ?_
      intro opened g u hSame _ hu
      cases opened with
      | false => exact .same True.intro hu
      | true =>
          exact run_rehearsed hRegistry fuel (by rw [hSame]; exact hDry) (by rw [hSame]; exact hAsks) hu

/-- A dry run of an event refuses, or it is the dispatch itself. -/
theorem deliver_rehearsed (hAsks : ∀ e, s.world.entities.get? d.target = some e →
      ∀ bound, e.overriding.AsksFor bound ∨ e.script.AsksFor bound → asks bound) :
    Rehearsed (s.Glanced asks) (· = .refuse) (fun _ => True) (rules.deliver fuel d s)
      (rules.deliver fuel { d with dry := false } s) := by
  unfold deliver deliverWith
  rw [Action.get_bind, Action.get_bind]
  dsimp only
  cases hTarget : s.world.entities.get? d.target with
  | none => exact .same True.intro (.refl _ _)
  | some e =>
      have hBoth := hAsks e hTarget
      dsimp only
      split
      · exact .same True.intro (.refl _ _)
      split
      · exact .same True.intro (.refl _ _)
      apply Rehearsed.action_bind
        (deliverTo_rehearsed hRegistry fuel hDry fun bound h => hBoth bound (.inl h))
      · rintro _ t rfl ht
        exact ⟨_, t, rfl, ht, rfl⟩
      · intro v t _ ht
        rw [Action.get_bind, Action.get_bind]
        split
        · exact .same True.intro ht
        · exact (deliverTo_rehearsed hRegistry fuel hDry fun bound h => hBoth bound (.inr h)).mono
            fun _ hu => ht.trans hu

end

/-- Peeking at an event refuses, or it is sending it. -/
theorem peek_rehearsed (hRegistry : rules.registry.OfBuiltins) (fuel : Nat) (target : EntityId)
    (event : EventName) :
    Rehearsed (s.Glanced (s.AskedBy target)) (· = .ok .refuse) (fun _ => True)
      (rules.peek fuel target event s) (rules.send fuel { target, event } s) := by
  unfold peek send about
  rw [Action.get_bind, Action.get_bind]
  apply Rehearsed.ite
  · intro _
    have hAsks : ∀ e, s.world.entities.get? target = some e →
        ∀ bound, e.overriding.AsksFor bound ∨ e.script.AsksFor bound → s.AskedBy target bound :=
      fun e he bound h => ⟨e, he, h⟩
    apply Rehearsed.action_bind (deliver_rehearsed hRegistry fuel rfl hAsks)
    · rintro _ t rfl ht
      exact ⟨_, t, rfl, ht, rfl⟩
    · exact fun v t _ ht => .same True.intro ht
  · exact fun _ => .same True.intro (.refl _ _)

/-- Peeking at an event only moves the place in the stream of random numbers, and not even that unless a
script of the entity asks for a random number. Where it has not moved, everything that is asked later
gets the response that it would have got without the peek. -/
theorem peek_glances (hRegistry : rules.registry.OfBuiltins) {fuel : Nat} {target : EntityId}
    {event : EventName} {a : Answer Verdict} {t : Session}
    (hPeek : rules.peek fuel target event s = .ok a t) :
    s.Glanced (s.AskedBy target) t ∧
    (t.world.random = s.world.random → ∀ later requests,
      Outcomes Session.Alike Session.Alike (fun _ => True) (rules.answerAll later requests s)
        (rules.answerAll later requests t)) := by
  have hGlanced : s.Glanced (s.AskedBy target) t := by
    have hBoth := peek_rehearsed (s := s) hRegistry fuel target event
    rw [hPeek] at hBoth
    generalize rules.send fuel { target, event } s = sent at hBoth
    cases hBoth with
    | refused _ ht => exact ht
    | same _ ht => exact ht
  exact ⟨hGlanced, fun hRandom later requests =>
    answerAll_alike hRegistry later requests (hGlanced.alike hRandom)⟩

/-- An entity whose first event jumps over an assignment that its second event makes. -/
def hurdleSession : Session :=
  (Session.spawn { className := "npc", script := some (.ofNormal "npc"
    "on init \x7b\n goto over\n set #n 1\n>>over\n accept\n\x7d\non hit \x7b\n set #n 1\n accept\n\x7d\n") }
    ⟨.ofConfig plain.config, .silent, #[]⟩).2

set_option maxRecDepth 100000 in
/-- Peeking at the second event refuses, and nothing that is asked later shows that it took place. -/
theorem peek_glances_hurdle :
    ∃ t, plain.peek 9 ⟨0⟩ (.fixed .hit) hurdleSession = .ok (.ok .refuse) t ∧
      t.world = hurdleSession.world ∧
      ∀ later requests, Outcomes Session.Alike Session.Alike (fun _ => True)
        (plain.answerAll later requests hurdleSession) (plain.answerAll later requests t) := by
  have hRun : Result.passes (fun a t => a.toOption = some .refuse ∧
        t.world.random = hurdleSession.world.random)
      (plain.peek 9 ⟨0⟩ (.fixed .hit) hurdleSession) = true := by decide +kernel
  obtain ⟨a, t, hPeek, hPasses⟩ := Result.exists_of_passes hRun
  obtain ⟨hAnswer, hRandom⟩ := of_decide_eq_true hPasses
  obtain rfl := eq_ok_of_toOption hAnswer
  obtain ⟨hGlanced, hLater⟩ := @peek_glances plain _ Registry.builtins_ofBuiltins _ _ _ _ _ hPeek
  refine ⟨t, hPeek, ?_, hLater hRandom⟩
  rw [hGlanced.world, hRandom]

/-- A peek that does not refuse predicts what comes of the event: sending it gives the same verdict and
leaves the very session that the peek left. -/
theorem peek_predicts (hRegistry : rules.registry.OfBuiltins) {fuel : Nat} {target : EntityId}
    {event : EventName} {v : Verdict} {t : Session}
    (hPeek : rules.peek fuel target event s = .ok (.ok v) t) (hVerdict : v ≠ .refuse) :
    rules.send fuel { target, event } s = .ok (.ok v) t := by
  have hBoth := peek_rehearsed (s := s) hRegistry fuel target event
  rw [hPeek] at hBoth
  generalize rules.send fuel { target, event } s = sent at hBoth ⊢
  cases hBoth with
  | refused hRefuses => exact absurd (Except.ok.inj hRefuses) hVerdict
  | same => rfl

set_option maxRecDepth 100000 in
/-- Peeking at the first event accepts, and so does sending it. -/
theorem peek_predicts_hurdle :
    ∃ t, plain.peek 9 ⟨0⟩ (.fixed .init) hurdleSession = .ok (.ok .accept) t ∧
      plain.send 9 { target := ⟨0⟩, event := .fixed .init } hurdleSession = .ok (.ok .accept) t := by
  have hRun : Result.passes (fun a _ => a.toOption = some .accept)
      (plain.peek 9 ⟨0⟩ (.fixed .init) hurdleSession) = true := by decide +kernel
  obtain ⟨a, t, hPeek, hPasses⟩ := Result.exists_of_passes hRun
  obtain rfl := eq_ok_of_toOption (of_decide_eq_true hPasses)
  exact ⟨t, hPeek, @peek_predicts plain _ Registry.builtins_ofBuiltins _ _ _ _ _ hPeek (by decide)⟩

end Rules

end EntityScript
