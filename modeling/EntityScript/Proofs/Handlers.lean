import EntityScript.Proofs.TwinRuns

/-! Dispatches with other handlers in place of the commands. They show when a handler is entered: one
that differs from a command only where the entity of the script is gone makes no difference, nor does
one that differs only in worlds that no dispatch comes upon. -/
namespace EntityScript

/-- What runs in place of the commands, and in place of the timer command with its name. -/
structure Handlers where
  command : Command → Act Reply
  timer : String → Act Reply

/-- The commands themselves. -/
def Handlers.own : Handlers := ⟨Command.run, Command.runTimer⟩

/-- Handlers that do what the commands do for a live entity, and anything for one that is gone. -/
structure Handlers.Faithful (h : Handlers) : Prop where
  command : ∀ c inv p, p.session.world.entities.contains inv.entity = true →
    h.command c inv p = c.run inv p
  timer : ∀ name inv p, p.session.world.entities.contains inv.entity = true →
    h.timer name inv p = Command.runTimer name inv p

/-- Handlers that do what the commands do for a live entity in a world with `K`, and anything where
the entity is gone or the world is another. -/
structure Handlers.FaithfulWhere (h : Handlers) (K : World → Prop) : Prop where
  command : ∀ c inv p, p.session.world.entities.contains inv.entity = true → K p.session.world →
    h.command c inv p = c.run inv p
  timer : ∀ name inv p, p.session.world.entities.contains inv.entity = true → K p.session.world →
    h.timer name inv p = Command.runTimer name inv p

theorem Handlers.Faithful.anywhere {h : Handlers} (hFaithful : h.Faithful) :
    h.FaithfulWhere fun _ => True where
  command c inv p hLive _ := hFaithful.command c inv p hLive
  timer name inv p hLive _ := hFaithful.timer name inv p hLive

namespace Act

/-- Obeys a command by its handler. -/
def obeyBy (h : Handlers) (c : Command) (word : String) : Act Reply := do
  if ← mayGive c then
    if (← invocation).dry && !c.harmless then return .finish .refuse else h.command c
  else
    warnAt word ("command '" ++ word ++ "' cannot run on this entity")
    discard skipLine
    return .failed

/-- What follows a word. -/
def followBy (h : Handlers) (registry : Registry) (stance : Stance) (word : String) : Act Turn := do
  match registry.find? word, behind? "timer" word.toList with
  | some c, _ => answer stance (← obeyBy h c word)
  | none, some name =>
    if (← invocation).dry then return .finish .refuse
    else answer stance (← h.timer (String.ofList name))
  | none, none => passWord stance word

/-- Reads a command word and obeys it. -/
def turnBy (h : Handlers) (registry : Registry) (stance : Stance) : Act Turn := do
  let word ← command (!stance.line)
  if word = "" then
    unless stance.line do warn "missing '\x7d' before end of script"
    return .finish .accept
  else
    announce word
    followBy h registry stance word

end Act

namespace Rules

/-- Runs the commands of a frame by their handlers. -/
def runBy (rules : Rules) (h : Handlers) : Nat → Frame → Action Verdict
  | 0, _ => throw .outOfFuel
  | fuel + 1, f => do
    let (turn, f) ← f.perform (Act.turnBy h rules.registry f.stance)
    match turn with
    | .finish v => return v
    | .go stance =>
      if (← get).world.entities.contains f.invocation.entity then
        runBy rules h fuel { f with stance }
      else return .destructive
    | .send s stance =>
      discard <| deliverWith rules (runBy rules h fuel) {
        sender := some f.invocation.entity, target := s.target, event := s.event
        parameters := s.parameters }
      if (← get).world.entities.contains f.invocation.entity then
        runBy rules h fuel { f with stance }
      else return .destructive

/-- Dispatches an event by handlers. -/
def deliverBy (rules : Rules) (h : Handlers) (fuel : Nat) (d : Delivery) : Action Verdict :=
  deliverWith rules (rules.runBy h fuel) d

/-- Runs the line that begins at a place of a script by handlers. -/
def runLineBy (rules : Rules) (h : Handlers) (fuel : Nat) (script : Script) (entity : EntityId)
    (pos : Nat) (timer : Option String) : Action Verdict := do
  if (← get).world.entities.contains entity then
    rules.nested script .line <| rules.runBy h fuel {
      invocation := { script, entity, event := .line, timer, suppressions := rules.suppressions }
      pos, stance := ⟨true, .event 1⟩ }
  else return .refuse

/-- By the commands themselves, dispatches are what they are. -/
theorem runBy_own (rules : Rules) (fuel : Nat) : rules.runBy .own fuel = rules.run fuel := by
  induction fuel with
  | zero => rfl
  | succ fuel ih =>
      funext f
      unfold runBy run
      rw [ih]
      rfl

end Rules

namespace Act

variable {inv : Invocation} {α β : Type}

theorem bind_congr {x : Act α} {f g : α → Act β} {p : Progress}
    (h : ∀ a q, x inv p = .ok a q → f a inv q = g a inv q) : (x >>= f) inv p = (x >>= g) inv p := by
  rw [bind_apply, bind_apply]
  cases hRun : x inv p with
  | ok a q => exact h a q hRun
  | error halt q => rfl

theorem command_world {lines : Bool} {p q : Progress} {word : String}
    (h : command lines inv p = .ok word q) : q.session.world = p.session.world := by
  rcases command_cases lines inv p with ⟨_, _, _, hRun⟩ | ⟨hRun, _⟩
  · cases hRun.symm.trans h
    rfl
  · cases hRun.symm.trans h

theorem Logs.world {act : Act Unit} (hLogs : Logs act) {p q : Progress}
    (h : act inv p = .ok () q) : q.session.world = p.session.world := by
  obtain ⟨log, hRun⟩ := hLogs inv p
  cases hRun.symm.trans h
  rfl

theorem openEvent_world {p q : Progress} {opened : Bool} (h : openEvent inv p = .ok opened q) :
    q.session.world = p.session.world := by
  unfold openEvent at h
  rw [bind_apply] at h
  cases hWord : command true inv p with
  | error halt r =>
      rw [hWord] at h
      cases h
  | ok word r =>
      have hSame := command_world hWord
      rw [hWord] at h
      dsimp only at h
      split at h
      · cases h
        exact hSame
      · rw [bind_apply] at h
        cases hWarn : warnAt word ("expected '\x7b' after event header, found '" ++ word ++ "'") inv r with
        | error halt u =>
            rw [hWarn] at h
            cases h
        | ok _ u =>
            rw [hWarn] at h
            cases h
            exact ((Logs.diagnoseToken _ _ _).world hWarn).trans hSame

variable {h : Handlers} {K : World → Prop} (hFaithful : h.FaithfulWhere K) {p : Progress}

include hFaithful

theorem followBy_eq (registry : Registry) (stance : Stance) (word : String)
    (hLive : p.session.world.entities.contains inv.entity = true) (hWhere : K p.session.world) :
    followBy h registry stance word inv p = follow registry stance word inv p := by
  unfold followBy follow
  cases registry.find? word with
  | some c =>
      dsimp only
      have hObey : obeyBy h c word inv p = obey c word inv p := by
        apply bind_congr
        intro allowed q hAllowed
        cases hAllowed
        split
        · change (if inv.dry && !c.harmless then Pure.pure (Reply.finish .refuse) else h.command c) inv p =
            (if inv.dry && !c.harmless then Pure.pure (Reply.finish .refuse) else c.run) inv p
          split
          · rfl
          · exact hFaithful.command c inv p hLive hWhere
        · rfl
      rw [bind_apply, bind_apply, hObey]
  | none =>
      cases behind? "timer" word.toList with
      | none => rfl
      | some name =>
          change (if inv.dry then Pure.pure (Turn.finish .refuse)
              else h.timer (String.ofList name) >>= answer stance) inv p =
            (if inv.dry then Pure.pure (Turn.finish .refuse)
              else Command.runTimer (String.ofList name) >>= answer stance) inv p
          split
          · rfl
          · rw [bind_apply, bind_apply, hFaithful.timer _ inv p hLive hWhere]

theorem turnBy_eq (registry : Registry) (stance : Stance)
    (hLive : p.session.world.entities.contains inv.entity = true) (hWhere : K p.session.world) :
    turnBy h registry stance inv p = turn registry stance inv p := by
  apply bind_congr
  intro word q hWord
  rw [← command_world hWord] at hLive hWhere
  split
  · rfl
  · apply bind_congr
    intro _ r hAnnounce
    rw [← (announce_logs word).world hAnnounce] at hLive hWhere
    exact followBy_eq hFaithful registry stance word hLive hWhere

end Act

namespace Rules

variable {rules : Rules} {K : World → Prop}

/-- Inside dispatches the world is always one with `K`: it is so when a dispatch is entered, behind
every turn, and behind every dispatch inside. -/
structure Maintains (rules : Rules) (K : World → Prop) : Prop where
  enter : ∀ w : World, w.depth < rules.config.maxDepth → K { w with depth := w.depth + 1 }
  turn : ∀ stance inv (p : Progress) turn q, K p.session.world →
    Act.turn rules.registry stance inv p = .ok turn q → K q.session.world
  deliver : ∀ fuel d (s : Session) v t, K s.world → rules.deliver fuel d s = .ok v t → K t.world

theorem maintains_any : rules.Maintains fun _ => True :=
  ⟨fun _ _ => True.intro, fun _ _ _ _ _ _ _ => True.intro, fun _ _ _ _ _ _ _ => True.intro⟩

/-- Two ways to run frames that come to the same while the entity is live in a world with `K`. -/
def SameWhere (K : World → Prop) (run run' : Frame → Action Verdict) : Prop :=
  ∀ f s, s.world.entities.contains f.invocation.entity = true → K s.world → run f s = run' f s

theorem nested_congr (script : Script) (event : EventName) {act act' : Action Verdict} {s : Session}
    (h : ∀ t : Session, s.world.depth < rules.config.maxDepth →
      t.world = { s.world with depth := s.world.depth + 1 } → act t = act' t) :
    rules.nested script event act s = rules.nested script event act' s := by
  by_cases hDeep : rules.config.maxDepth ≤ s.world.depth
  · rw [nested_abort rules script event act hDeep, nested_abort rules script event act' hDeep]
  · rw [nested_enter rules script event act hDeep, nested_enter rules script event act' hDeep]
    exact Action.bind_congr (h _ (Nat.lt_of_not_le hDeep) rfl) fun _ _ _ => rfl

theorem perform_bind_congr {α β : Type} {f : Frame} {act act' : Act α} {k k' : α × Frame → Action β}
    {s : Session} (hAct : act f.invocation ⟨s, f.pos, f.calls⟩ = act' f.invocation ⟨s, f.pos, f.calls⟩)
    (hk : ∀ a q g, act' f.invocation ⟨s, f.pos, f.calls⟩ = .ok a q → g.invocation = f.invocation →
      k (a, g) q.session = k' (a, g) q.session) :
    (f.perform act >>= k) s = (f.perform act' >>= k') s := by
  refine Action.bind_congr ?_ ?_
  · unfold Frame.perform
    rw [hAct]
  · rintro ⟨a, g⟩ t hRun
    obtain ⟨hOk, hSame, _⟩ := Frame.perform_ok hRun
    exact hk a _ g (hAct ▸ hOk) hSame

/-- An event is dispatched only while its target is live. -/
theorem deliverTo_sameWhere (hK : rules.Maintains K) {run run' : Frame → Action Verdict}
    (hRun : SameWhere K run run') (d : Delivery) (script : Script) {s : Session}
    (hLive : s.world.entities.contains d.target = true) :
    rules.deliverTo run d script s = rules.deliverTo run' d script s := by
  unfold deliverTo
  cases script.eventStart? d.event with
  | none => rfl
  | some header =>
      apply nested_congr
      intro t hDepth ht
      apply perform_bind_congr rfl
      intro opened q g hOpened hSame
      have hWorld : q.session.world = { s.world with depth := s.world.depth + 1 } := by
        rw [Act.openEvent_world hOpened]
        exact ht
      cases opened with
      | false => rfl
      | true =>
          apply hRun g q.session
          · rw [hSame, hWorld]
            exact hLive
          · rw [hWorld]
            exact hK.enter _ hDepth

theorem deliverWith_sameWhere (hK : rules.Maintains K) {run run' : Frame → Action Verdict}
    (hRun : SameWhere K run run') (d : Delivery) : rules.deliverWith run d = rules.deliverWith run' d := by
  funext s
  unfold deliverWith
  rw [Action.get_bind, Action.get_bind]
  cases hTarget : s.world.entities.get? d.target with
  | none => rfl
  | some e =>
      have hLive : s.world.entities.contains d.target = true := by
        rw [EntityTable.contains_eq, hTarget]
        rfl
      dsimp only
      split
      · rfl
      split
      · rfl
      apply Action.bind_congr (deliverTo_sameWhere hK hRun d e.overriding hLive)
      intro v t _
      rw [Action.get_bind, Action.get_bind]
      split
      · rfl
      · rename_i hOn
        refine deliverTo_sameWhere hK hRun d e.script ?_
        have hBoth : (¬ v = .refuse ∧ ¬ v = .destructive) ∧
            t.world.entities.contains d.target = true := by simpa using hOn
        exact hBoth.2

variable {h : Handlers}

theorem runBy_eq (hK : rules.Maintains K) (hFaithful : h.FaithfulWhere K) (fuel : Nat) :
    SameWhere K (rules.runBy h fuel) (rules.run fuel) := by
  induction fuel with
  | zero => exact fun _ _ _ _ => rfl
  | succ fuel ih =>
      intro f s hLive hWhere
      have hOn (g : Frame) (t : Session) (ht : K t.world) :
          (if t.world.entities.contains g.invocation.entity then rules.runBy h fuel g
            else return .destructive : Action Verdict) t =
          (if t.world.entities.contains g.invocation.entity then rules.run fuel g
            else return .destructive : Action Verdict) t := by
        split
        · rename_i hStill
          exact ih g t hStill ht
        · rfl
      unfold runBy run
      apply perform_bind_congr (Act.turnBy_eq hFaithful _ _ hLive hWhere)
      intro turn q g hTurn _
      have hBehind : K q.session.world := hK.turn _ _ _ _ _ hWhere hTurn
      cases turn with
      | finish v => rfl
      | go stance => exact hOn { g with stance } q.session hBehind
      | send e stance =>
          dsimp only
          rw [deliverWith_sameWhere hK ih]
          refine Action.bind_congr rfl fun _ t hSent => hOn { g with stance } t ?_
          obtain ⟨v, hDelivered⟩ := Action.discard_ok.mp hSent
          exact hK.deliver fuel _ _ _ _ hBehind hDelivered

/-- Dispatches of events do not tell such handlers from the commands. -/
theorem deliverBy_eq_where (hK : rules.Maintains K) (hFaithful : h.FaithfulWhere K) (fuel : Nat)
    (d : Delivery) : rules.deliverBy h fuel d = rules.deliver fuel d :=
  deliverWith_sameWhere hK (runBy_eq hK hFaithful fuel) d

/-- Nor do dispatches of lines. -/
theorem runLineBy_eq_where (hK : rules.Maintains K) (hFaithful : h.FaithfulWhere K) (fuel : Nat)
    (script : Script) (entity : EntityId) (pos : Nat) (timer : Option String) :
    rules.runLineBy h fuel script entity pos timer = rules.runLine fuel script entity pos timer := by
  funext s
  unfold runLineBy runLine
  rw [Action.get_bind, Action.get_bind]
  split
  · rename_i hLive
    apply nested_congr
    intro t hDepth ht
    apply runBy_eq hK hFaithful fuel _ t
    · rw [ht]
      exact hLive
    · rw [ht]
      exact hK.enter _ hDepth
  · rfl

variable (hFaithful : h.Faithful)

include hFaithful

theorem deliverBy_eq (fuel : Nat) (d : Delivery) : rules.deliverBy h fuel d = rules.deliver fuel d :=
  deliverBy_eq_where maintains_any hFaithful.anywhere fuel d

theorem runLineBy_eq (fuel : Nat) (script : Script) (entity : EntityId) (pos : Nat)
    (timer : Option String) :
    rules.runLineBy h fuel script entity pos timer = rules.runLine fuel script entity pos timer :=
  runLineBy_eq_where maintains_any hFaithful.anywhere fuel script entity pos timer

end Rules

end EntityScript
