import EntityScript.Proofs.Runs
import EntityScript.Proofs.TwinTurns

/-! Whole dispatches go the same way in related sessions, if the relation holds on through what
commands do for a live entity, through its end, and while dispatches are entered and left. -/
namespace EntityScript

variable {α β : Type} {E T U : Session → Session → Prop} {Q : α → Prop} {R : β → Prop}

theorem Outcomes.action_bind {x x' : Action α} {f f' : α → Action β} {s s' : Session}
    (hx : Outcomes E T Q (x s) (x' s'))
    (hf : ∀ a t t', Q a → T t t' → Outcomes E U R (f a t) (f' a t')) :
    Outcomes E U R ((x >>= f) s) ((x' >>= f') s') := by
  rw [Action.bind_apply, Action.bind_apply]
  generalize x s = r at hx ⊢
  generalize x' s' = r' at hx ⊢
  cases hx with
  | ok hValue hState => exact hf _ _ _ hValue hState
  | error hState => exact .error hState

theorem Action.bind_congr {x x' : Action α} {f g : α → Action β} {s : Session} (hx : x s = x' s)
    (hf : ∀ a t, x s = .ok a t → f a t = g a t) : (x >>= f) s = (x' >>= g) s := by
  rw [bind_apply, bind_apply, ← hx]
  cases hRun : x s with
  | ok a t => exact hf a t hRun
  | error h t => rfl

theorem Outcomes.ite {c : Prop} [Decidable c] {x x' y y' : Action β} {s s' : Session}
    (hx : c → Outcomes E T R (x s) (x' s')) (hy : ¬ c → Outcomes E T R (y s) (y' s')) :
    Outcomes E T R ((if c then x else y) s) ((if c then x' else y') s') := by
  by_cases h : c
  · rw [if_pos h, if_pos h]
    exact hx h
  · rw [if_neg h, if_neg h]
    exact hy h

theorem Action.modify_bind (f : Session → Session) (k : Unit → Action β) (s : Session) :
    ((modify f : Action Unit) >>= k) s = k () (f s) := rfl

theorem Action.get_bind (k : Session → Action β) (s : Session) :
    ((MonadState.get : Action Session) >>= k) s = k s s := rfl

theorem EntityTable.contains_eq (t : EntityTable) (id : EntityId) :
    t.contains id = (t.get? id).isSome := by
  rw [contains, get?, Option.isSome_map, List.isSome_find?]

theorem EntityTable.mem_of_get? {table : EntityTable} {id : EntityId} {e : Entity}
    (h : table.get? id = some e) : (id, e) ∈ table.members := by
  unfold get? at h
  obtain ⟨m, hFind, rfl⟩ := Option.map_eq_some_iff.mp h
  obtain rfl : m.1 = id := by simpa using List.find?_some hFind
  exact List.mem_of_find?_eq_some hFind

/-- Changing an entity takes none away. -/
theorem EntityTable.contains_modify (t : EntityTable) (changed id : EntityId) (f : Entity → Entity) :
    (t.modify changed f).contains id = t.contains id := by
  simp only [contains, modify, List.any_map]
  congr 1
  funext m
  dsimp only [Function.comp]
  split <;> rfl

namespace Session

theorem Look.entities {script : Script} {s : Session} {f : Session → Session}
    (h : s.Look script f) : (f s).world.entities = s.world.entities := by
  cases h <;> rfl

/-- No deed of a command takes an entity away or adds one. -/
theorem Deed.contains {inv : Invocation} {s : Session} {f : Session → Session} (h : s.Deed inv f)
    (id : EntityId) : (f s).world.entities.contains id = s.world.entities.contains id := by
  cases h with
  | modify hf => exact EntityTable.contains_modify _ _ _ _
  | enqueue => rw [enqueue_entities]
  | _ => rfl

/-- What holds on between two sessions through the same dispatches. The dispatches may differ in what
they suppress, as far as this shows in the log only. -/
structure Congruence (suppressions suppressions' : Suppressions) (T : Session → Session → Prop) :
    Prop where
  world : ∀ {s s'}, T s s' → s'.world = s.world
  answers : ∀ {s s'}, T s s' → s'.host.record.answers = s.host.record.answers
  responses : ∀ {s s'}, T s s' → s'.host.record.responses = s.host.record.responses
  look : ∀ {s s' script f}, T s s' → s.Look script f → T (f s) (f s')
  deed : ∀ {s s' inv f}, T s s' → s.world.entities.contains inv.entity = true → s.Deed inv f →
    T (f s) (f s')
  destroy : ∀ id {s s'}, T s s' → T (s.destroy id).2 (s'.destroy id).2
  depth : ∀ (f : Nat → Nat) {s s'}, T s s' →
    T (s.onWorld fun w => { w with depth := f w.depth })
      (s'.onWorld fun w => { w with depth := f w.depth })
  token : ∀ inv, inv.suppressions = suppressions → ∀ level token message,
    Act.Twin T inv (inv.under inv.dry suppressions') (fun _ => True)
      (Act.diagnoseToken level token message)
  resumes : ∀ script pos, suppressions'.resumes script pos = suppressions.resumes script pos

/-- Related while an entity is live. -/
def WhileLive (T : Session → Session → Prop) (id : EntityId) (s s' : Session) : Prop :=
  T s s' ∧ s.world.entities.contains id = true

variable {suppressions suppressions' : Suppressions} {T : Session → Session → Prop}

theorem Congruence.write (hT : Congruence suppressions suppressions' T) (level : Level)
    (topic : Topic) (message : String) {s s' : Session} (hRel : T s s') :
    T (s.write level topic message) (s'.write level topic message) :=
  hT.look hRel (@Look.write .empty s level topic message)

/-- While its entity is live, a dispatch may give every command. -/
theorem Congruence.serves (hT : Congruence suppressions suppressions' T) {inv : Invocation}
    (hInv : inv.suppressions = suppressions) :
    Act.Serves (WhileLive T inv.entity) inv (inv.under inv.dry suppressions') where
  under := ⟨_, _, rfl⟩
  world h := hT.world h.1
  answers h := hT.answers h.1
  look h hLook := ⟨hT.look h.1 hLook, by rw [hLook.entities]; exact h.2⟩
  token level token message p p' hp := by
    have hBoth := hT.token inv hInv level token message p p' (hp.mono fun _ _ h => h.1)
    obtain ⟨log, hLog⟩ := Act.Logs.diagnoseToken level token message inv p
    rw [hLog] at hBoth ⊢
    generalize Act.diagnoseToken level token message (inv.under inv.dry suppressions') p' = r'
      at hBoth ⊢
    cases hBoth with
    | ok _ hq => exact .ok True.intro ⟨⟨hq.session, hp.session.2⟩, hq.pos, hq.calls⟩
  resumes pos := by
    rw [hInv]
    exact hT.resumes _ _
  responses h := hT.responses h.1
  deed h hDeed := ⟨hT.deed h.1 h.2 hDeed, by rw [hDeed.contains]; exact h.2⟩

end Session

namespace Registry

/-- Every command goes the same way in dispatches with these suppressions, while their entity is
live. -/
def InStep (r : Registry) (suppressions suppressions' : Suppressions)
    (T : Session → Session → Prop) : Prop :=
  ∀ word c, r.find? word = some c → ∀ inv : Invocation, inv.suppressions = suppressions →
    c.InStep (Session.WhileLive T inv.entity) T inv (inv.under inv.dry suppressions')

theorem OfBuiltins.inStep {r : Registry} (hr : r.OfBuiltins)
    {suppressions suppressions' : Suppressions} {T : Session → Session → Prop}
    (hT : Session.Congruence suppressions suppressions' T) : r.InStep suppressions suppressions' T :=
  fun _ _ hFind _ hInv _ _ hp => Command.builtins_twin (hT.serves hInv) (fun _ _ h => h.1)
    (fun id _ _ h => hT.destroy id h.1) (hr.find? hFind).1 hp

end Registry

/-- The same dispatch with other suppressions. -/
def Frame.under (f : Frame) (suppressions : Suppressions) : Frame :=
  { f with invocation := f.invocation.under f.invocation.dry suppressions }

/-- Going on behind an act of a frame. -/
theorem Frame.perform_paired {α β : Type} {S T : Session → Session → Prop} {Q : α → Prop}
    {R : β → Prop} {f : Frame} {suppressions' : Suppressions} {act : Act α}
    {k k' : α × Frame → Action β} {s s' : Session}
    (hAct : Paired (Progress.Beside S) Q (act f.invocation ⟨s, f.pos, f.calls⟩)
      (act (f.under suppressions').invocation ⟨s', f.pos, f.calls⟩))
    (hST : ∀ t t', S t t' → T t t')
    (hk : ∀ a g t t', g.invocation = f.invocation → Q a → S t t' →
      Paired T R (k (a, g) t) (k' (a, g.under suppressions') t')) :
    Paired T R ((f.perform act >>= k) s) (((f.under suppressions').perform act >>= k') s') := by
  rw [Action.bind_apply, Action.bind_apply, perform, perform]
  dsimp only [under] at hAct ⊢
  generalize act f.invocation ⟨s, f.pos, f.calls⟩ = r at hAct ⊢
  generalize act (f.invocation.under f.invocation.dry suppressions') ⟨s', f.pos, f.calls⟩ = r'
    at hAct ⊢
  cases hAct with
  | ok hValue hBeside =>
      dsimp only
      rw [hBeside.pos, hBeside.calls]
      exact hk _ _ _ _ rfl hValue hBeside.session
  | error hBeside => exact .error (hST _ _ hBeside.session)

/-- The same rules with other suppressions. -/
def Rules.under (rules : Rules) (suppressions : Suppressions) : Rules := { rules with suppressions }

namespace Rules

variable {rules : Rules} {suppressions' : Suppressions} {T : Session → Session → Prop}

/-- Goes on in a frame, unless its entity is gone. -/
def proceed (rules : Rules) (fuel : Nat) (f : Frame) : Action Verdict := do
  if (← get).world.entities.contains f.invocation.entity then rules.run fuel f
  else return .destructive

/-- A run is a turn and what follows it. -/
theorem run_turn (rules : Rules) (fuel : Nat) (f : Frame) :
    rules.run (fuel + 1) f = (do
      let (turn, f) ← f.perform (Act.turn rules.registry f.stance)
      match turn with
      | .finish v => return v
      | .go stance => rules.proceed fuel { f with stance }
      | .send s stance =>
        discard <| rules.deliverWith (rules.run fuel) {
          sender := some f.invocation.entity, target := s.target, event := s.event
          parameters := s.parameters }
        rules.proceed fuel { f with stance }) := rfl

/-- The two runs of a frame go the same way, whatever related sessions they begin in. -/
def RunsPaired (rules : Rules) (suppressions' : Suppressions) (T : Session → Session → Prop)
    (run run' : Frame → Action Verdict) : Prop :=
  ∀ f s s', f.invocation.suppressions = rules.suppressions → T s s' →
    s.world.entities.contains f.invocation.entity = true →
    Paired T (fun _ => True) (run f s) (run' (f.under suppressions') s')

/-- Too deep inside one another, a dispatch is not begun. -/
theorem nested_abort (rules : Rules) (script : Script) (event : EventName) (act : Action Verdict)
    {s : Session} (hDeep : rules.config.maxDepth ≤ s.world.depth) :
    rules.nested script event act s =
      .ok .error (s.write .error .script ("[" ++ script.name ++ "] " ++ event.shown ++
        ": dispatch nested deeper than " ++ toString rules.config.maxDepth ++ ", aborted")) := by
  unfold nested
  rw [Action.get_bind, if_pos hDeep]
  rfl

/-- Otherwise it runs one level deeper. -/
theorem nested_enter (rules : Rules) (script : Script) (event : EventName) (act : Action Verdict)
    {s : Session} (hDeep : ¬ rules.config.maxDepth ≤ s.world.depth) :
    rules.nested script event act s = (do
      let verdict ← act
      modify <| Session.onWorld fun w => { w with depth := w.depth - 1 }
      return verdict : Action Verdict) (s.onWorld fun w => { w with depth := w.depth + 1 }) := by
  unfold nested
  rw [Action.get_bind, if_neg hDeep]
  rfl

theorem nested_paired (hT : Session.Congruence rules.suppressions suppressions' T) (script : Script)
    (event : EventName) {act act' : Action Verdict} {s s' : Session} (hRel : T s s')
    (hAct : ∀ t t', T t t' → t.world.entities = s.world.entities →
      Paired T (fun _ => True) (act t) (act' t')) :
    Paired T (fun _ => True) (rules.nested script event act s)
      ((rules.under suppressions').nested script event act' s') := by
  have hWorld := hT.world hRel
  by_cases hDeep : rules.config.maxDepth ≤ s.world.depth
  · rw [nested_abort rules script event act hDeep,
      nested_abort (rules.under suppressions') script event act' (by rw [hWorld]; exact hDeep)]
    exact .ok True.intro (hT.write _ _ _ hRel)
  · rw [nested_enter rules script event act hDeep,
      nested_enter (rules.under suppressions') script event act' (by rw [hWorld]; exact hDeep)]
    apply (hAct _ _ (hT.depth (· + 1) hRel) rfl).action_bind
    intro v t t' _ hLeft
    exact .ok True.intro (hT.depth (· - 1) hLeft)

/-- What an event is dispatched to is run while the entity is live. -/
theorem deliverTo_paired (hT : Session.Congruence rules.suppressions suppressions' T)
    {run run' : Frame → Action Verdict} (hRun : rules.RunsPaired suppressions' T run run')
    (d : Delivery) (script : Script) {s s' : Session} (hRel : T s s')
    (hLive : s.world.entities.contains d.target = true) :
    Paired T (fun _ => True) (rules.deliverTo run d script s)
      ((rules.under suppressions').deliverTo run' d script s') := by
  unfold deliverTo
  cases hHeader : script.eventStart? d.event with
  | none => exact .ok True.intro hRel
  | some header =>
      apply nested_paired hT _ _ hRel
      intro t t' hDeeper hEntities
      let f : Frame := {
        invocation := {
          script, entity := d.target, sender := d.sender, event := d.event
          parameters := d.parameters, dry := d.dry, suppressions := rules.suppressions }
        pos := header, stance := ⟨false, .event 1⟩ }
      have hServes : Act.Serves (Session.WhileLive T f.invocation.entity) f.invocation
          (f.invocation.under f.invocation.dry suppressions') := hT.serves rfl
      have hThere : (Progress.mk t f.pos f.calls).Beside
          (Session.WhileLive T f.invocation.entity) ⟨t', f.pos, f.calls⟩ :=
        ⟨⟨hDeeper, by rw [hEntities]; exact hLive⟩, rfl, rfl⟩
      have hOpened := Act.openEvent_twin hServes.toWatches _ _ hThere
      refine Frame.perform_paired (f := f) hOpened (fun _ _ h => h.1) ?_
      rintro opened g u u' hSame - ⟨hHeld, hStill⟩
      cases opened with
      | true => exact hRun g u u' (by rw [hSame]) hHeld (by rw [hSame]; exact hStill)
      | false => exact .ok True.intro hHeld

theorem deliverWith_paired (hT : Session.Congruence rules.suppressions suppressions' T)
    {run run' : Frame → Action Verdict} (hRun : rules.RunsPaired suppressions' T run run')
    (d : Delivery) {s s' : Session} (hRel : T s s') :
    Paired T (fun _ => True) (rules.deliverWith run d s)
      ((rules.under suppressions').deliverWith run' d s') := by
  unfold deliverWith
  rw [Action.get_bind, Action.get_bind, hT.world hRel]
  cases hTarget : s.world.entities.get? d.target with
  | none => exact .ok True.intro hRel
  | some e =>
      have hLive : s.world.entities.contains d.target = true := by
        rw [EntityTable.contains_eq, hTarget]
        rfl
      apply Outcomes.ite (fun _ => .ok True.intro hRel)
      intro _
      apply Outcomes.ite (fun _ => .ok True.intro hRel)
      intro _
      apply (deliverTo_paired hT hRun d e.overriding hRel hLive).action_bind
      intro v t t' _ hLeft
      rw [Action.get_bind, Action.get_bind, hT.world hLeft]
      apply Outcomes.ite (fun _ => .ok True.intro hLeft)
      intro hOn
      refine deliverTo_paired hT hRun d e.script hLeft ?_
      have hBoth : (¬ v = .refuse ∧ ¬ v = .destructive) ∧
          t.world.entities.contains d.target = true := by simpa using hOn
      exact hBoth.2

theorem proceed_paired (hT : Session.Congruence rules.suppressions suppressions' T) {fuel : Nat}
    (hRun : rules.RunsPaired suppressions' T (rules.run fuel) ((rules.under suppressions').run fuel))
    {f : Frame} (hf : f.invocation.suppressions = rules.suppressions) {s s' : Session}
    (hRel : T s s') :
    Paired T (fun _ => True) (rules.proceed fuel f s)
      ((rules.under suppressions').proceed fuel (f.under suppressions') s') := by
  unfold proceed
  rw [Action.get_bind, Action.get_bind, hT.world hRel]
  exact Outcomes.ite (fun hLive => hRun f s s' hf hRel hLive) fun _ => .ok True.intro hRel

/-- Runs go the same way. -/
theorem run_paired (hT : Session.Congruence rules.suppressions suppressions' T)
    (hCommands : rules.registry.InStep rules.suppressions suppressions' T) (fuel : Nat) :
    rules.RunsPaired suppressions' T (rules.run fuel) ((rules.under suppressions').run fuel) := by
  induction fuel with
  | zero => exact fun f s s' _ hRel _ => .error hRel
  | succ fuel ih =>
      intro f s s' hf hRel hLive
      have hServes := hT.serves hf
      have hThere : (Progress.mk s f.pos f.calls).Beside
          (Session.WhileLive T f.invocation.entity) ⟨s', f.pos, f.calls⟩ :=
        ⟨⟨hRel, hLive⟩, rfl, rfl⟩
      have hTurn := Act.turn_paired (T := T) (fun _ _ h => h.1) (fun hFind => hCommands _ _ hFind _ hf)
        hServes rfl f.stance hThere
      rw [run_turn, run_turn]
      refine Frame.perform_paired hTurn (fun _ _ h => h) ?_
      intro turn g t t' hSame _ hLeft
      have hg : g.invocation.suppressions = rules.suppressions := by rw [hSame, hf]
      cases turn with
      | finish v => exact .ok True.intro hLeft
      | go stance => exact proceed_paired hT ih (f := { g with stance }) hg hLeft
      | send e stance =>
          refine Outcomes.action_bind (Q := fun _ => True) ?_ fun _ u u' _ hSent =>
            proceed_paired hT ih (f := { g with stance }) hg hSent
          -- The event is dispatched with less fuel, so `ih` serves its dispatch as well.
          apply (deliverWith_paired hT ih _ hLeft).action_bind
          intro _ u u' _ hSent
          exact .ok True.intro hSent

theorem deliver_paired (hT : Session.Congruence rules.suppressions suppressions' T)
    (hCommands : rules.registry.InStep rules.suppressions suppressions' T) (fuel : Nat) (d : Delivery)
    {s s' : Session} (hRel : T s s') :
    Paired T (fun _ => True) (rules.deliver fuel d s)
      ((rules.under suppressions').deliver fuel d s') :=
  deliverWith_paired hT (run_paired hT hCommands fuel) d hRel

theorem runLine_paired (hT : Session.Congruence rules.suppressions suppressions' T)
    (hCommands : rules.registry.InStep rules.suppressions suppressions' T) (fuel : Nat)
    (script : Script) (entity : EntityId) (pos : Nat) (timer : Option String) {s s' : Session}
    (hRel : T s s') :
    Paired T (fun _ => True) (rules.runLine fuel script entity pos timer s)
      ((rules.under suppressions').runLine fuel script entity pos timer s') := by
  unfold runLine
  rw [Action.get_bind, Action.get_bind, hT.world hRel]
  refine Outcomes.ite (fun hLive => ?_) fun _ => .ok True.intro hRel
  apply nested_paired hT _ _ hRel
  intro t t' hDeeper hEntities
  exact run_paired hT hCommands fuel {
    invocation := { script, entity, event := .line, timer, suppressions := rules.suppressions }
    pos, stance := ⟨true, .event 1⟩ } t t' rfl hDeeper (by rw [hEntities]; exact hLive)

end Rules

end EntityScript
