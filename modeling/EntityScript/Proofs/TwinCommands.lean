import EntityScript.Proofs.Commands
import EntityScript.Proofs.TwinReadings

/-! The commands that every session has go the same way in two dispatches. Those without side effects
only look at the session, and they send no events; the others do their deeds in both; and one takes an
entity away. -/
namespace EntityScript

/-- The reply asks for no other dispatch. -/
def Reply.Quiet : Reply → Prop
  | .send _ => False
  | _ => True

/-- The reply does not end the dispatch as one whose entity is gone. -/
def Reply.Stays (r : Reply) : Prop := r ≠ .finish .destructive

/-- The reply asks for nothing but to go on in the script, or to end there. -/
def Reply.Plain (r : Reply) : Prop := r.Quiet ∧ r.Stays

/-- A slot that holds the timer of an owner and a name holds a timer of that owner. -/
theorem TimerSet.ownedBy_of_holds {owner : EntityId} {name : String} {slot : Option Timer}
    (h : holds owner name slot = true) : ownedBy owner slot = true := by
  cases slot with
  | none => cases h
  | some t => simp_all [holds, ownedBy]

theorem Session.enqueue_world (e : QueuedEvent) (s : Session) :
    (s.enqueue e).2.world = { s.world with queue := (s.world.queue.push e).2 } := by
  unfold enqueue
  dsimp only
  split <;> rfl

theorem Session.enqueue_host (e : QueuedEvent) (s : Session) : (s.enqueue e).2.host = s.host := by
  unfold enqueue
  dsimp only
  split <;> rfl

theorem Session.enqueue_entities (e : QueuedEvent) (s : Session) :
    (s.enqueue e).2.world.entities = s.world.entities := by
  rw [enqueue_world]

namespace Act

variable {S T : Session → Session → Prop} {inv inv' : Invocation} {α : Type} {Q : α → Prop}

theorem Watches.jump (hS : Watches S inv inv') (label : String) (subroutine : Bool) :
    Twin S inv inv' (fun _ => True) (Act.jump label subroutine) := by
  apply hS.invocation (fun _ _ => rfl)
  split
  · exact .pure True.intro
  · refine Twin.andThen (.moveAbout fun p p' hp => ⟨hp.session, rfl, ?_⟩) fun _ => .pure True.intro
    rw [hp.pos, hp.calls]

theorem Watches.comeBack : Twin S inv inv' (fun _ => True) Act.comeBack := by
  apply Twin.here
  · intro p p' hp
    rw [hp.calls]
  · intro p
    split
    · exact .pure True.intro
    · exact Twin.andThen (.moveAbout fun p p' hp => ⟨hp.session, rfl, rfl⟩) fun _ =>
        .pure True.intro

namespace Serves

theorem onDeed (hS : Serves S inv inv') {f : Session → Session}
    (hf : ∀ s : Session, s.Deed inv f) : Twin S inv inv' (fun _ => True) (onSession f) :=
  .onSession fun s _ hRel => hS.deed hRel (hf s)

theorem onSelf (hS : Serves S inv inv') {f : Entity → Entity}
    (hf : ∀ e, (f e).script = e.script ∧ (f e).overriding = e.overriding) :
    Twin S inv inv' (fun _ => True) (Act.onSelf f) := by
  apply hS.invocation (fun _ _ => rfl)
  apply hS.worldValue.andThen
  intro w
  dsimp only
  split
  · exact (hS.onDeed fun _ => .modify hf).andThen fun _ => .pure True.intro
  · exact .pure True.intro

/-- Changing the entity and telling whether it is there. -/
theorem markSelf (hS : Serves S inv inv') {f : Entity → Entity}
    (hf : ∀ e, (f e).script = e.script ∧ (f e).overriding = e.overriding) :
    Twin S inv inv' Reply.Stays
      (do if ← Act.onSelf f then return Reply.success else return .failed) := by
  refine (hS.onSelf hf).andThen fun live => ?_
  split
  · exact .pure nofun
  · exact .pure nofun

theorem onTable (hS : Serves S inv inv') (scope : Scope) (f : Variables → Variables) :
    Twin S inv inv' (fun _ => True) (Act.onTable scope f) := by
  unfold Act.onTable
  split
  · exact (hS.onDeed fun _ => .globals f).andThen fun _ => .pure True.intro
  · exact hS.onSelf fun _ => ⟨rfl, rfl⟩

theorem unsetVar (hS : Serves S inv inv') (key : VarKey) :
    Twin S inv inv' (fun _ => True) (Act.unsetVar key) :=
  (hS.table? _).andThen fun _ => (hS.onTable _ _).map.andThen fun _ => .pure True.intro

/-- Starting a timer now, for a line of the script. -/
theorem startTimer (hS : Serves S inv inv') {make : World → Timer}
    (hMake : ∀ w, (make w).owner = inv.entity ∧ (make w).script = inv.script ∧
      (make w).start = w.clock) {next : Act α} (hNext : Twin S inv inv' Q next) :
    Twin S inv inv' Q
      (Act.world >>= fun w => onSession (Session.startTimer (make w)) >>= fun _ => next) := by
  intro p p' hp
  rw [world_bind, world_bind, hS.world hp.session]
  obtain ⟨hOwner, hScript, hClock⟩ := hMake p.session.world
  have hStarted : Paired (Progress.Beside S) (fun _ => True)
      (onSession (Session.startTimer (make p.session.world)) inv p)
      (onSession (Session.startTimer (make p.session.world)) inv' p') :=
    .ok True.intro ⟨hS.deed hp.session (.start hOwner hScript hClock), hp.pos, hp.calls⟩
  exact hStarted.act_bind (fun _ _ h => h) fun _ q q' _ hq => hNext q q' hq

end Serves

end Act

namespace Command

variable {S T : Session → Session → Prop} {inv inv' : Invocation}

open Act

/-! Commands that direct the flow of a script. -/

theorem skipBody_twin (hS : Watches S inv inv') : Twin S inv inv' (fun _ => True) skipBody :=
  hS.skipStatement.andThen fun _ => (hS.consume _).map

theorem runIf_twin (hS : Watches S inv inv') : Twin S inv inv' Reply.Plain runIf := by
  apply hS.condition.andThen
  intro held
  split
  · exact .pure ⟨True.intro, nofun⟩
  · exact (skipBody_twin hS).andThen fun _ => .pure ⟨True.intro, nofun⟩
  · exact (skipBody_twin hS).andThen fun _ => .pure ⟨True.intro, nofun⟩

theorem runElse_twin (hS : Watches S inv inv') : Twin S inv inv' Reply.Plain runElse :=
  hS.skipStatement.andThen fun _ => .pure ⟨True.intro, nofun⟩

theorem runJump_twin (hS : Watches S inv inv') (subroutine : Bool) :
    Twin S inv inv' Reply.Plain (runJump subroutine) := by
  apply hS.word.bind
  intro label _
  apply (hS.jump label subroutine).andThen
  intro found
  split
  · exact .pure ⟨True.intro, nofun⟩
  · exact (hS.token _ _ _).andThen fun _ => .pure ⟨True.intro, nofun⟩

theorem runReturn_twin (hS : Watches S inv inv') : Twin S inv inv' Reply.Plain runReturn := by
  apply Watches.comeBack.andThen
  intro found
  split
  · exact .pure ⟨True.intro, nofun⟩
  · exact (hS.error _).andThen fun _ => .pure ⟨True.intro, nofun⟩

theorem runRandom_twin (hS : Serves S inv inv') : Twin S inv inv' Reply.Plain runRandom := by
  apply hS.float.andThen
  intro chance
  apply (hS.draw fun hRel _ hDraw => hS.deed hRel (.chance hDraw)).andThen
  intro drawn
  dsimp only
  split
  · exact hS.skipStatement.andThen fun _ => .pure ⟨True.intro, nofun⟩
  · exact .pure ⟨True.intro, nofun⟩

theorem showLocals_twin (hS : Watches S inv inv') : Twin S inv inv' (fun _ => True) showLocals := by
  apply hS.ident.andThen
  intro name
  apply hS.self?.andThen
  intro e
  dsimp only
  split
  · exact hS.write _ _ _
  · exact hS.write _ _ _

theorem showGlobals_twin (hS : Watches S inv inv') :
    Twin S inv inv' (fun _ => True) showGlobals :=
  hS.worldValue.andThen fun _ => hS.write _ _ _

/-! Commands that write variables. -/

theorem writable?_twin (hS : Watches S inv inv') (word : String) :
    Twin S inv inv' (fun _ => True) (writable? word) := by
  unfold writable?
  split
  · exact (hS.token _ _ _).andThen fun _ => .pure True.intro
  · split
    · exact .pure True.intro
    · exact (hS.token _ _ _).andThen fun _ => .pure True.intro

theorem operandValue_twin (hS : Watches S inv inv') {name : String} (hName : inv.script.Names name)
    (type : VarType) : Twin S inv inv' (fun _ => True) (operandValue name type) := by
  unfold operandValue
  split
  · exact hS.readVar hName
  · split
    · exact .pure True.intro
    · exact .pure True.intro

theorem assign_twin (hS : Serves S inv inv') (key : VarKey) (v : Value) :
    Twin S inv inv' Reply.Stays (assign key v) := by
  apply (hS.onTable _ _).andThen
  intro written
  split
  · exact .pure nofun
  · exact .pure nofun

theorem setElement_twin (hS : Serves S inv inv') : Twin S inv inv' Reply.Stays setElement := by
  apply hS.word.bind
  intro target _
  apply hS.word.bind
  intro index hIndex
  apply hS.word.bind
  intro list hList
  apply (writable?_twin hS.toWatches _).andThen
  intro found
  split
  · exact .pure nofun
  · apply (hS.readFloat hIndex).andThen
    intro _
    dsimp only
    split
    · exact (hS.readVar hList).map.andThen fun _ => assign_twin hS _ _
    · exact assign_twin hS _ _

theorem setItemCount_twin (hS : Serves S inv inv') :
    Twin S inv inv' Reply.Stays setItemCount := by
  apply hS.word.bind
  intro target _
  apply hS.word.bind
  intro lead _
  apply (writable?_twin hS.toWatches _).andThen
  intro found
  split
  · exact .pure nofun
  · exact hS.self?.andThen fun _ => assign_twin hS _ _

theorem runSet_twin (hS : Serves S inv inv') : Twin S inv inv' Reply.Stays runSet := by
  apply hS.flags.andThen
  intro flags
  split
  · exact setElement_twin hS
  split
  · exact setItemCount_twin hS
  · apply hS.word.bind
    intro target _
    apply hS.word.bind
    intro value hValue
    apply (writable?_twin hS.toWatches _).andThen
    intro found
    split
    · exact .pure nofun
    · exact (operandValue_twin hS.toWatches hValue _).andThen fun _ => assign_twin hS _ _

theorem runUnset_twin (hS : Serves S inv inv') : Twin S inv inv' Reply.Stays runUnset := by
  apply hS.word.bind
  intro w _
  apply (writable?_twin hS.toWatches _).andThen
  intro found
  split
  · exact .pure nofun
  · exact (hS.unsetVar _).map.andThen fun _ => .pure nofun

theorem update_twin (hS : Serves S inv inv') (key : VarKey) (op : Arithmetic) (operand : Value) :
    Twin S inv inv' Reply.Stays (update key op operand) := by
  unfold update
  dsimp only
  split
  · exact (hS.warn _).andThen fun _ => .pure nofun
  split
  · exact (hS.warn _).andThen fun _ => .pure nofun
  · exact (hS.readKey _).andThen fun _ => assign_twin hS _ _

theorem runArithmetic_twin (hS : Serves S inv inv') (op : Arithmetic) :
    Twin S inv inv' Reply.Stays (runArithmetic op) := by
  apply hS.word.bind
  intro target _
  apply hS.word.bind
  intro operand hOperand
  apply (writable?_twin hS.toWatches _).andThen
  intro found
  split
  · exact .pure nofun
  · exact (operandValue_twin hS.toWatches hOperand _).andThen fun _ => update_twin hS _ _ _

theorem runStep_twin (hS : Serves S inv inv') (delta : Int64) :
    Twin S inv inv' Reply.Stays (runStep delta) := by
  apply hS.word.bind
  intro w _
  apply (writable?_twin hS.toWatches _).andThen
  intro found
  split
  · exact .pure nofun
  · exact update_twin hS _ _ _

/-! Commands about time. -/

theorem stopAll_twin (hS : Serves S inv inv') : Twin S inv inv' Reply.Stays stopAll := by
  apply hS.invocation (fun _ _ => rfl)
  apply hS.worldValue.andThen
  intro _
  apply (hS.onDeed fun _ => .free fun _ hOwned => hOwned).andThen
  exact fun _ => (hS.debug _).andThen fun _ => .pure nofun

theorem startTimer_twin (hS : Serves S inv inv') (name flags : String) {first : String}
    (hFirst : inv.script.Names first) :
    Twin S inv inv' Reply.Stays (startTimer name flags first) := by
  apply (hS.readFloat hFirst).andThen
  intro _
  apply hS.float.andThen
  intro _
  apply hS.skipLine.andThen
  intro left
  split
  · exact (hS.warn _).andThen fun _ => .pure nofun
  · apply hS.invocation (fun _ _ => rfl)
    exact hS.startTimer (fun _ => ⟨rfl, rfl, rfl⟩) (.pure nofun)

theorem stopOrStart_twin (hS : Serves S inv inv') (name flags : String) {first : String}
    (hFirst : inv.script.Names first) :
    Twin S inv inv' Reply.Stays (stopOrStart name flags first) := by
  unfold stopOrStart
  split
  · apply hS.invocation (fun _ _ => rfl)
    dsimp only
    split
    · exact (hS.onDeed fun _ => .free fun _ => TimerSet.ownedBy_of_holds).andThen fun _ =>
        .pure nofun
    · exact .pure nofun
  · exact startTimer_twin hS _ _ hFirst

theorem runTimer_twin (hS : Serves S inv inv') (name : String) :
    Twin S inv inv' Reply.Stays (runTimer name) := by
  unfold runTimer
  split
  · exact stopAll_twin hS
  apply hS.flags.andThen
  intro options
  apply hS.word.bind
  intro first hFirst
  split
  · split
    · exact stopAll_twin hS
    · exact hS.flags.andThen fun _ => hS.word.bind fun _ hNext => stopOrStart_twin hS _ _ hNext
  · exact stopOrStart_twin hS _ _ hFirst

theorem runStopwatch_twin (hS : Serves S inv inv') (starts : Bool) :
    Twin S inv inv' Reply.Stays (runStopwatch starts) := by
  apply hS.word.bind
  intro w _
  split
  · exact (hS.warn _).andThen fun _ => .pure nofun
  · exact hS.worldValue.andThen fun _ => hS.markSelf fun _ => ⟨rfl, rfl⟩

/-! Commands about events, entities and the game. -/

theorem parameters_twin (hS : Watches S inv inv') : Twin S inv inv' (fun _ => True) parameters := by
  apply hS.hasMore.andThen
  intro more
  split
  · exact hS.word.bind fun _ _ => .pure True.intro
  · exact .pure True.intro

theorem audience?_twin (hS : Watches S inv inv') (flags : String) :
    Twin S inv inv' (fun _ => True) (audience? flags) := by
  unfold audience?
  split
  · exact hS.word.bind fun _ _ => .pure True.intro
  split
  · apply hS.word.bind
    intro w hRadius
    split
    · exact (hS.readFloat hRadius).andThen fun _ => .pure True.intro
    · exact (hS.debug _).andThen fun _ => .pure True.intro
  · exact .pure True.intro

/-- A broadcast reaches live entities. -/
theorem contains_of_receivers {entities : EntityTable} {this target : EntityId}
    {kinds : List Capability} {audience : Audience}
    (h : target ∈ receivers entities this kinds audience) : entities.contains target = true := by
  obtain ⟨m, hm, rfl⟩ := List.mem_map.mp h
  exact List.any_eq_true.mpr ⟨m, (List.mem_filter.mp hm).1, by simp⟩

theorem enqueueAll_twin (hS : Serves S inv inv') (event : EventName) (parameters : Parameters)
    {targets : List EntityId} {s s' : Session}
    (hLive : ∀ target ∈ targets, s.world.entities.contains target = true) (hRel : S s s') :
    (enqueueAll inv.entity event parameters targets s').1 =
      (enqueueAll inv.entity event parameters targets s).1 ∧
    S (enqueueAll inv.entity event parameters targets s).2
      (enqueueAll inv.entity event parameters targets s').2 := by
  induction targets generalizing s s' with
  | nil => exact ⟨rfl, hRel⟩
  | cons target rest ih =>
      rw [List.forall_mem_cons] at hLive
      let e : QueuedEvent := ⟨some inv.entity, target, event, parameters⟩
      have hTaken : (s'.enqueue e).1 = (s.enqueue e).1 :=
        congrArg (fun w : World => (w.queue.push e).1) (hS.world hRel)
      have hStill : ∀ target ∈ rest, (s.enqueue e).2.world.entities.contains target = true := by
        rw [Session.enqueue_entities]
        exact hLive.2
      have hRest := ih hStill (hS.deed hRel (.enqueue rfl hLive.1))
      refine ⟨?_, hRest.2⟩
      simp only [enqueueAll]
      rw [hRest.1, hTaken]

theorem broadcast_twin (hS : Serves S inv inv') (event : EventName) (parameters : Parameters)
    {targets : World → List EntityId}
    (hLive : ∀ w, ∀ target ∈ targets w, w.entities.contains target = true) :
    Twin S inv inv' Reply.Stays (do
      let w ← world
      let (queued, s) := enqueueAll inv.entity event parameters (targets w) (← get).session
      onSession fun _ => s
      debug ("sendevent " ++ event.shown ++ " queued for " ++ toString queued ++ " entities")
      return Reply.success) := by
  intro p p' hp
  obtain ⟨hQueued, hRel⟩ := enqueueAll_twin hS event parameters (hLive p.session.world) hp.session
  have hTail (queued : Nat) : Twin S inv inv' Reply.Stays (do
      debug ("sendevent " ++ event.shown ++ " queued for " ++ toString queued ++ " entities")
      return Reply.success) := (hS.debug _).andThen fun _ => .pure nofun
  rw [world_bind, world_bind, hS.world hp.session, get_bind, get_bind]
  dsimp only
  rw [hQueued]
  exact hTail _ { p with session := _ } { p' with session := _ } ⟨hRel, hp.pos, hp.calls⟩

theorem runSend_twin (hS : Serves S inv inv') : Twin S inv inv' Reply.Stays runSend := by
  apply hS.flags.andThen
  intro options
  apply (audience?_twin hS.toWatches _).andThen
  intro audience
  apply hS.word.bind
  intro name _
  dsimp only
  split
  · apply hS.word.bind
    intro target _
    apply (parameters_twin hS.toWatches).andThen
    intro _
    apply (hS.resolve? _).andThen
    intro found
    split
    · exact (hS.token _ _ _).andThen fun _ => .pure nofun
    · exact .pure nofun
  · apply (parameters_twin hS.toWatches).andThen
    intro _
    apply hS.invocation (fun _ _ => rfl)
    exact broadcast_twin hS _ _ fun _ _ => contains_of_receivers

theorem runSetEvent_twin (hS : Serves S inv inv') :
    Twin S inv inv' Reply.Stays runSetEvent := by
  apply hS.word.bind
  intro name _
  apply hS.bool.andThen
  intro enabled
  split
  · exact (hS.warn _).andThen fun _ => .pure nofun
  · exact hS.markSelf fun _ => ⟨rfl, rfl⟩

theorem runSetMain_twin (hS : Serves S inv inv') : Twin S inv inv' Reply.Stays runSetMain := by
  apply hS.word.bind
  intro name _
  split
  · exact (hS.warn _).andThen fun _ => .pure nofun
  · exact hS.markSelf fun _ => ⟨rfl, rfl⟩

theorem runSetGroup_twin (hS : Serves S inv inv') :
    Twin S inv inv' Reply.Stays runSetGroup := by
  apply hS.flags.andThen
  intro options
  apply hS.word.bind
  intro group _
  split
  · exact (hS.warn _).andThen fun _ => .pure nofun
  · exact hS.markSelf fun _ => ⟨rfl, rfl⟩

theorem readWords_twin (hS : Watches S inv inv') (n : Nat) :
    Twin S inv inv' (fun _ => True) (readWords n) := by
  induction n with
  | zero => exact .pure True.intro
  | succ n ih => exact hS.word.bind fun _ _ => ih.andThen fun _ => .pure True.intro

theorem putOff_twin (hS : Serves S inv inv') (delay : Duration) :
    Twin S inv inv' (fun _ => True) (putOff delay) := by
  apply hS.skipLine.andThen
  intro left
  split
  · exact .pure True.intro
  · apply hS.invocation (fun _ _ => rfl)
    exact hS.startTimer (fun _ => ⟨rfl, rfl, rfl⟩) (.pure True.intro)

theorem forward_twin (hS : Serves S inv inv') (name : String) (arity : Nat) :
    Twin S inv inv' Reply.Stays (forward name arity) := by
  apply hS.flags.andThen
  intro options
  apply (readWords_twin hS.toWatches _).andThen
  intro args
  apply hS.invocation (fun _ _ => rfl)
  apply hS.ident.andThen
  intro ident
  apply (hS.write _ _ _).andThen
  intro _
  -- The response of the game depends on its tables only, which are the same on both sides.
  let command : HostCommand := { entity := inv.entity, ident, name, flags := options, args }
  have hGive : Twin S inv inv' (fun _ => True)
      (onSession fun s => { s with host := (s.host.give command).2 }) := hS.onDeed fun _ => .give command
  intro p p' hp
  have hResponse : (p'.session.host.give command).1 = (p.session.host.give command).1 :=
    congrArg (fun table : List (String × HostResponse) => (table.lookup name).getD .done)
      (hS.responses hp.session)
  rw [get_bind, get_bind]
  dsimp only
  rw [hResponse]
  cases (p.session.host.give command).1 with
  | done => exact (hGive.andThen fun _ => .pure nofun) p p' hp
  | failed =>
      have hWarn := hS.warn (name ++ " failed")
      exact (hGive.andThen fun _ => hWarn.andThen fun _ => .pure nofun) p p' hp
  | resumeAfter delay =>
      have hPutOff := putOff_twin hS delay
      exact (hGive.andThen fun _ => hPutOff.andThen fun _ => .pure nofun) p p' hp

/-- Taking an entity away is the one deed behind which the relation need not go on. -/
theorem runDestroy_parts (hS : Serves S inv inv') (hST : ∀ s s', S s s' → T s s')
    (hDestroy : ∀ id s s', S s s' → T (s.destroy id).2 (s'.destroy id).2) {p p' : Progress}
    (hp : p.Beside S p') :
    Paired (Progress.Beside T) (fun _ => True) (runDestroy inv p) (runDestroy inv' p') := by
  apply (hS.word p p' hp).act_bind hST
  intro w q q' _ hq
  apply (hS.resolve? w q q' hq).act_bind hST
  intro found q q' _ hq
  cases found with
  | none =>
      apply (hS.token _ _ _ q q' hq).act_bind hST
      intro _ q q' _ hq
      exact .ok True.intro (hq.mono hST)
  | some id =>
      obtain ⟨dry, suppressions, rfl⟩ := hS.under
      exact .ok True.intro ⟨hDestroy id _ _ hq.session, hq.pos, hq.calls⟩

/-! The list of the commands. -/

theorem finish_twin {v : Verdict} (hv : v ≠ .destructive) :
    Twin S inv inv' Reply.Plain (return .finish v) :=
  .pure ⟨True.intro, fun h => hv (Reply.finish.inj h)⟩

theorem success_plain : Reply.success.Plain := ⟨True.intro, nofun⟩

theorem listings_twin (hS : Watches S inv inv') :
    ∀ c ∈ listings, Twin S inv inv' Reply.Plain c.run := by
  simp only [listings, always, List.forall_mem_cons, List.not_mem_nil, false_implies, implies_true,
    and_true]
  refine ⟨?_, ?_, ?_⟩
  · exact (showLocals_twin hS).andThen fun _ => .pure success_plain
  · exact (showGlobals_twin hS).andThen fun _ => .pure success_plain
  · exact (showGlobals_twin hS).andThen fun _ => (showLocals_twin hS).andThen fun _ =>
      .pure success_plain

/-- A command without side effects only looks at the session, and it sends no event. -/
theorem harmless_twin (hS : Watches S inv inv') {c : Command} (h : c ∈ builtins)
    (hHarmless : c.harmless = true) : Twin S inv inv' Reply.Quiet c.run := by
  have hFlow : ∀ c ∈ flow, c.harmless = true → Twin S inv inv' Reply.Plain c.run := by
    simp only [flow, List.forall_mem_cons, List.not_mem_nil, false_implies, implies_true, and_true]
    exact ⟨fun _ => finish_twin (by decide), fun _ => finish_twin (by decide), fun _ => runIf_twin hS,
      fun _ => runElse_twin hS, fun _ => runJump_twin hS _, fun _ => runJump_twin hS _,
      fun _ => runReturn_twin hS, fun h => absurd h Bool.false_ne_true⟩
  have hOthers : ∀ b ∈ (assignment ++ schedule ++ messaging ++ membership ++ gameplay).map harmless,
      b = false := by decide
  have hList : c ∈ flow ∨ c ∈ assignment ++ schedule ++ messaging ++ membership ++ gameplay ∨
      c ∈ listings := by
    simpa only [builtins, List.mem_append, or_assoc] using h
  rcases hList with h | h | h
  · exact (hFlow c h hHarmless).mono fun _ hr => hr.1
  · cases hHarmless.symm.trans (hOthers _ (List.mem_map_of_mem h))
  · exact (listings_twin hS c h).mono fun _ hr => hr.1

theorem flow_twin (hS : Serves S inv inv') :
    ∀ c ∈ flow, Twin S inv inv' Reply.Stays c.run := by
  have hPlain : ∀ c ∈ flow, Twin S inv inv' Reply.Plain c.run := by
    simp only [flow, List.forall_mem_cons, List.not_mem_nil, false_implies, implies_true, and_true]
    exact ⟨finish_twin (by decide), finish_twin (by decide), runIf_twin hS.toWatches,
      runElse_twin hS.toWatches, runJump_twin hS.toWatches _, runJump_twin hS.toWatches _,
      runReturn_twin hS.toWatches, runRandom_twin hS⟩
  exact fun c hc => (hPlain c hc).mono fun _ hr => hr.2

theorem assignment_twin (hS : Serves S inv inv') :
    ∀ c ∈ assignment, Twin S inv inv' Reply.Stays c.run := by
  simp only [assignment, List.forall_mem_cons, List.not_mem_nil, false_implies, implies_true,
    and_true]
  exact ⟨runSet_twin hS, runUnset_twin hS, runArithmetic_twin hS _, runArithmetic_twin hS _,
    runArithmetic_twin hS _, runArithmetic_twin hS _, runArithmetic_twin hS _,
    runArithmetic_twin hS _, runArithmetic_twin hS _, runArithmetic_twin hS _,
    runArithmetic_twin hS _, runStep_twin hS _, runStep_twin hS _⟩

theorem schedule_twin (hS : Serves S inv inv') :
    ∀ c ∈ schedule, Twin S inv inv' Reply.Stays c.run := by
  simp only [schedule, List.forall_mem_cons, List.not_mem_nil, false_implies, implies_true, and_true]
  exact ⟨runStopwatch_twin hS _, runStopwatch_twin hS _⟩

theorem messaging_twin (hS : Serves S inv inv') :
    ∀ c ∈ messaging, Twin S inv inv' Reply.Stays c.run := by
  simp only [messaging, List.forall_mem_cons, List.not_mem_nil, false_implies, implies_true, and_true]
  exact ⟨runSend_twin hS, runSetEvent_twin hS, runSetMain_twin hS⟩

theorem gameplay_twin (hS : Serves S inv inv') :
    ∀ c ∈ gameplay, Twin S inv inv' Reply.Stays c.run := by
  simp only [gameplay, gameplayCommand, List.forall_mem_cons, List.not_mem_nil, false_implies,
    implies_true, and_true]
  exact ⟨forward_twin hS _ _, forward_twin hS _ _, forward_twin hS _ _, forward_twin hS _ _,
    forward_twin hS _ _, forward_twin hS _ _, forward_twin hS _ _⟩

/-- Every command but the one that takes an entity away goes the same way in both dispatches, and it
ends neither as one whose entity is gone. -/
theorem builtins_cases {c : Command} (h : c ∈ builtins) :
    (c.name = "destroy" ∧ c.run = runDestroy) ∨
      ∀ {S inv inv'}, Serves S inv inv' → Twin S inv inv' Reply.Stays c.run := by
  simp only [builtins, List.mem_append] at h
  rcases h with (((((h | h) | h) | h) | h) | h) | h
  · exact .inr fun hS => flow_twin hS c h
  · exact .inr fun hS => assignment_twin hS c h
  · exact .inr fun hS => schedule_twin hS c h
  · exact .inr fun hS => messaging_twin hS c h
  · simp only [membership, List.mem_cons, List.not_mem_nil, or_false] at h
    rcases h with rfl | rfl
    · exact .inr fun hS => runSetGroup_twin hS
    · exact .inl ⟨rfl, rfl⟩
  · exact .inr fun hS => gameplay_twin hS c h
  · exact .inr fun hS => (listings_twin hS.toWatches c h).mono fun _ hr => hr.2

/-- Every command goes the same way in both dispatches. -/
theorem builtins_twin (hS : Serves S inv inv') (hST : ∀ s s', S s s' → T s s')
    (hDestroy : ∀ id s s', S s s' → T (s.destroy id).2 (s'.destroy id).2) {c : Command}
    (h : c ∈ builtins) {p p' : Progress} (hp : p.Beside S p') :
    Paired (Progress.Beside T) (fun _ => True) (c.run inv p) (c.run inv' p') := by
  rcases builtins_cases h with ⟨_, hRun⟩ | hTwin
  · rw [hRun]
    exact runDestroy_parts hS hST hDestroy hp
  · exact Outcomes.mono (hTwin hS p p' hp) (fun _ _ hq => hq.mono hST) (fun _ _ hq => hq.mono hST)
      fun _ _ => True.intro

end Command

end EntityScript
