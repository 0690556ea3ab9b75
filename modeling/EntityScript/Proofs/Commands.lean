import EntityScript.Command.Builtin
import EntityScript.Proofs.Readings

/-! The commands that every session has. All but the three that jump are steady: they read on, they
keep the return points, and they never ask their dispatch to go on elsewhere. -/
namespace EntityScript

namespace Act.Steady

variable {inv : Invocation} {start : Progress}

/-- What is left on a line begins further on, where text can be read. -/
theorem skipLine : Steady inv start (inv.script.Onward start.pos)
    (fun left => ∀ begin, left = some begin →
      inv.script.Onward start.pos begin ∧ inv.script.Valid begin) Act.skipLine := by
  intro p hp
  obtain ⟨left, log, pos, hRun, hOn, hLeft⟩ := skipLine_eq inv p
  exact .of_ok hRun ⟨⟨hp.session.trans (.of_same rfl rfl rfl), hp.pos.trans hOn, hp.calls⟩,
    fun begin hBegin => (hLeft begin hBegin).imp_left hp.pos.trans⟩

/-- Starting a timer for what is left on a line. -/
theorem startTimer {M : Nat → Prop} {t : Timer} {w : World} {here : Invocation}
    (hHere : here = inv) (hClock : w.clock = start.session.world.clock) (hStart : t.start = w.clock)
    (hScript : t.script = here.script)
    (hPos : inv.script.Onward start.pos t.pos ∧ inv.script.Valid t.pos) :
    Steady inv start M (fun _ => True) (Act.onSession (Session.startTimer t)) :=
  onSession fun s => .startTimer ⟨hStart.trans hClock, by rw [hScript, hHere], hPos.1, hPos.2⟩ s

/-- Changing the entity and telling whether it is there. -/
theorem markSelf {M : Nat → Prop} {f : Entity → Entity}
    (hf : ∀ e, (f e).script = e.script ∧ (f e).overriding = e.overriding) :
    Steady inv start M (· ≠ Reply.jumped)
      (do if ← Act.onSelf f then return Reply.success else return .failed) := by
  refine (onSelf hf).andThen fun live => ?_
  split
  · exact .pure nofun
  · exact .pure nofun

end Act.Steady

/-- A command without jumps. -/
def Command.Steady (run : Act Reply) : Prop :=
  ∀ inv start, Act.Steady inv start (inv.script.Onward start.pos) (· ≠ Reply.jumped) run

namespace Command

open Act.Steady

variable {inv : Invocation} {start : Progress} {M : Nat → Prop}

theorem skipBody_steady :
    Act.Steady inv start (inv.script.Onward start.pos) (fun _ => True) skipBody :=
  skipStatement.andThen fun _ => map (consume _)

theorem runIf_steady : Steady runIf := by
  intro inv start
  refine condition.andThen fun held => ?_
  split
  · exact .pure nofun
  · exact skipBody_steady.andThen fun _ => .pure nofun
  · exact skipBody_steady.andThen fun _ => .pure nofun

theorem runElse_steady : Steady runElse := fun _ _ => skipStatement.andThen fun _ => .pure nofun

theorem runRandom_steady : Steady runRandom := by
  intro inv start
  have hFinite : (100 : Float).isFinite = true := by decide
  refine float.andThen fun chance => (draw fun hNone => ?_).andThen fun drawn => ?_
  · exact absurd hNone.2 (by simp [hFinite])
  dsimp only
  split
  · exact skipStatement.andThen fun _ => .pure nofun
  · exact .pure nofun

theorem finish_steady (v : Verdict) : Steady (return .finish v) := fun _ _ => .pure nofun

theorem stopAll_steady : Act.Steady inv start M (· ≠ Reply.jumped) stopAll := by
  refine invocation.bind fun _ _ => world.bind fun _ _ => ?_
  refine andThen (onSession fun s => .free _ s) fun _ => ?_
  exact (Act.Logs.debug _).steady.andThen fun _ => .pure nofun

/-- Starting a timer whose first argument is a name of the script. -/
theorem startTimer_steady (name flags : String) {first : String}
    (hFirst : inv.script.Names first) :
    Act.Steady inv start (inv.script.Onward start.pos) (· ≠ Reply.jumped)
      (startTimer name flags first) := by
  refine (readFloat hFirst).andThen fun _ => float.andThen fun _ => skipLine.bind fun left hLeft => ?_
  split
  · exact (Act.Logs.warn _).steady.andThen fun _ => .pure nofun
  · rename_i begin
    refine invocation.bind fun here hHere => world.bind fun w hClock => ?_
    exact andThen (Act.Steady.startTimer hHere hClock rfl rfl (hLeft begin rfl)) fun _ => .pure nofun

theorem stopOrStart_steady (name flags : String) {first : String}
    (hFirst : inv.script.Names first) :
    Act.Steady inv start (inv.script.Onward start.pos) (· ≠ Reply.jumped)
      (stopOrStart name flags first) := by
  unfold stopOrStart
  split
  · refine invocation.bind fun _ _ => ?_
    dsimp only
    split
    · exact andThen (onSession fun s => .free _ s) fun _ => .pure nofun
    · exact .pure nofun
  · exact startTimer_steady _ _ hFirst

theorem runTimer_steady (name : String) : Steady (runTimer name) := by
  intro inv start
  unfold runTimer
  split
  · exact stopAll_steady
  · refine Act.Reads.flags.steady.andThen fun options => word.bind fun first hFirst => ?_
    split
    · split
      · exact stopAll_steady
      · exact Act.Reads.flags.steady.andThen fun _ => word.bind fun _ hNext =>
          stopOrStart_steady _ _ hNext
    · exact stopOrStart_steady _ _ hFirst

theorem runStopwatch_steady (starts : Bool) : Steady (runStopwatch starts) := by
  intro inv start
  refine word.bind fun w _ => ?_
  split
  · exact (Act.Logs.warn _).steady.andThen fun _ => .pure nofun
  · exact world.bind fun _ _ => markSelf fun _ => ⟨rfl, rfl⟩

/-! Commands that write variables. -/

theorem writable?_steady (word : String) :
    Act.Steady inv start M (fun _ => True) (writable? word) := by
  unfold writable?
  split
  · exact (Act.Logs.diagnoseToken _ _ _).steady.andThen fun _ => .pure True.intro
  · split
    · exact .pure True.intro
    · exact (Act.Logs.diagnoseToken _ _ _).steady.andThen fun _ => .pure True.intro

theorem operandValue_steady {name : String} (hName : inv.script.Names name) (type : VarType) :
    Act.Steady inv start M (fun _ => True) (operandValue name type) := by
  unfold operandValue
  split
  · exact readVar hName
  · split
    · exact .pure True.intro
    · exact .pure True.intro

theorem assign_steady (key : VarKey) (v : Value) :
    Act.Steady inv start M (· ≠ Reply.jumped) (assign key v) := by
  refine (writeVar _ _).andThen fun written => ?_
  split
  · exact .pure nofun
  · exact .pure nofun

theorem setElement_steady : Steady setElement := by
  intro inv start
  refine word.bind fun target _ => word.bind fun index hIndex => word.bind fun list hList =>
    (writable?_steady _).andThen fun found => ?_
  split
  · exact .pure nofun
  · refine (readFloat hIndex).andThen fun _ => ?_
    dsimp only
    split
    · exact andThen (map (readVar hList)) fun _ => assign_steady _ _
    · exact assign_steady _ _

theorem setItemCount_steady : Steady setItemCount := by
  intro inv start
  refine word.bind fun target _ => word.bind fun lead _ =>
    (writable?_steady _).andThen fun found => ?_
  split
  · exact .pure nofun
  · exact self?.andThen fun _ => assign_steady _ _

theorem runSet_steady : Steady runSet := by
  intro inv start
  refine Act.Reads.flags.steady.andThen fun flags => ?_
  split
  · exact setElement_steady inv start
  · split
    · exact setItemCount_steady inv start
    · refine word.bind fun target _ => word.bind fun value hValue =>
        (writable?_steady _).andThen fun found => ?_
      split
      · exact .pure nofun
      · exact (operandValue_steady hValue _).andThen fun _ => assign_steady _ _

theorem runUnset_steady : Steady runUnset := by
  intro inv start
  refine word.bind fun w _ => (writable?_steady _).andThen fun found => ?_
  split
  · exact .pure nofun
  · exact andThen (map (unsetVar _)) fun _ => .pure nofun

theorem update_steady (key : VarKey) (op : Arithmetic) (operand : Value) :
    Act.Steady inv start M (· ≠ Reply.jumped) (update key op operand) := by
  unfold update
  dsimp only
  split
  · exact (Act.Logs.warn _).steady.andThen fun _ => .pure nofun
  · split
    · exact (Act.Logs.warn _).steady.andThen fun _ => .pure nofun
    · exact (readKey _).andThen fun _ => assign_steady _ _

theorem runArithmetic_steady (op : Arithmetic) : Steady (runArithmetic op) := by
  intro inv start
  refine word.bind fun target _ => word.bind fun operand hOperand =>
    (writable?_steady _).andThen fun found => ?_
  split
  · exact .pure nofun
  · exact (operandValue_steady hOperand _).andThen fun _ => update_steady _ _ _

theorem runStep_steady (delta : Int64) : Steady (runStep delta) := by
  intro inv start
  refine word.bind fun w _ => (writable?_steady _).andThen fun found => ?_
  split
  · exact .pure nofun
  · exact update_steady _ _ _

/-! Commands about events, entities and the game. -/

theorem parameters_steady :
    Act.Steady inv start (inv.script.Onward start.pos) (fun _ => True) parameters := by
  refine Act.Reads.hasMore.steady.andThen fun more => ?_
  split
  · exact word.bind fun _ _ => .pure True.intro
  · exact .pure True.intro

theorem audience?_steady (flags : String) :
    Act.Steady inv start (inv.script.Onward start.pos) (fun _ => True) (audience? flags) := by
  unfold audience?
  split
  · exact word.bind fun _ _ => .pure True.intro
  · split
    · refine word.bind fun w hRadius => ?_
      split
      · exact (readFloat hRadius).andThen fun _ => .pure True.intro
      · exact (Act.Logs.debug _).steady.andThen fun _ => .pure True.intro
    · exact .pure True.intro

theorem enqueueAll_evolves {fresh : Timer → Prop} (this : EntityId) (event : EventName)
    (parameters : Parameters) (targets : List EntityId) (s : Session) :
    Session.Evolves fresh s (enqueueAll this event parameters targets s).2 := by
  induction targets generalizing s with
  | nil => exact .refl s
  | cons target rest ih => exact (Session.Evolves.enqueue _ s).trans (ih _)

theorem broadcast_steady (this : EntityId) (event : EventName)
    (parameters : Parameters) (targets : List EntityId) :
    Act.Steady inv start M (· ≠ Reply.jumped) (do
      let (queued, s) := enqueueAll this event parameters targets (← get).session
      Act.onSession fun _ => s
      Act.debug ("sendevent " ++ event.shown ++ " queued for " ++ toString queued ++ " entities")
      return .success) := by
  intro p hp
  have hTail : Act.Steady inv start M (· ≠ Reply.jumped) (do
      Act.debug ("sendevent " ++ event.shown ++ " queued for " ++
        toString (enqueueAll this event parameters targets p.session).1 ++ " entities")
      return .success) := (Act.Logs.debug _).steady.andThen fun _ => .pure nofun
  exact hTail { p with session := (enqueueAll this event parameters targets p.session).2 }
    ⟨hp.session.trans (enqueueAll_evolves _ _ _ _ _), hp.pos, hp.calls⟩

theorem runSend_steady : Steady runSend := by
  intro inv start
  refine Act.Reads.flags.steady.andThen fun options => (audience?_steady _).andThen fun audience =>
    word.bind fun name _ => ?_
  dsimp only
  split
  · refine word.bind fun target _ => parameters_steady.andThen fun _ =>
      (resolve? _).andThen fun found => ?_
    split
    · exact (Act.Logs.diagnoseToken _ _ _).steady.andThen fun _ => .pure nofun
    · exact .pure nofun
  · refine parameters_steady.andThen fun _ => invocation.bind fun _ _ => world.bind fun _ _ => ?_
    exact broadcast_steady _ _ _ _

theorem runSetEvent_steady : Steady runSetEvent := by
  intro inv start
  refine word.bind fun name _ => bool.andThen fun enabled => ?_
  split
  · exact (Act.Logs.warn _).steady.andThen fun _ => .pure nofun
  · exact markSelf fun _ => ⟨rfl, rfl⟩

theorem runSetMain_steady : Steady runSetMain := by
  intro inv start
  refine word.bind fun name _ => ?_
  split
  · exact (Act.Logs.warn _).steady.andThen fun _ => .pure nofun
  · exact markSelf fun _ => ⟨rfl, rfl⟩

theorem runSetGroup_steady : Steady runSetGroup := by
  intro inv start
  refine Act.Reads.flags.steady.andThen fun options => word.bind fun group _ => ?_
  split
  · exact (Act.Logs.warn _).steady.andThen fun _ => .pure nofun
  · exact markSelf fun _ => ⟨rfl, rfl⟩

theorem runDestroy_steady : Steady runDestroy := by
  intro inv start
  refine word.bind fun w _ => (resolve? _).andThen fun found => ?_
  split
  · exact (Act.Logs.diagnoseToken _ _ _).steady.andThen fun _ => .pure nofun
  · refine andThen (onSession fun s => .destroy _ s) fun _ => invocation.bind fun _ _ => ?_
    refine .pure ?_
    split
    · exact nofun
    · exact nofun

theorem readWords_steady (n : Nat) :
    Act.Steady inv start (inv.script.Onward start.pos) (fun _ => True) (readWords n) := by
  induction n with
  | zero => exact .pure True.intro
  | succ n ih => exact word.bind fun _ _ => ih.andThen fun _ => .pure True.intro

theorem putOff_steady (delay : Duration) :
    Act.Steady inv start (inv.script.Onward start.pos) (fun _ => True) (putOff delay) := by
  refine skipLine.bind fun left hLeft => ?_
  split
  · exact .pure True.intro
  · rename_i begin
    refine invocation.bind fun here hHere => world.bind fun w hClock => ?_
    exact Act.Steady.startTimer hHere hClock rfl rfl (hLeft begin rfl)

theorem forward_steady (name : String) (arity : Nat) : Steady (forward name arity) := by
  intro inv start
  refine Act.Reads.flags.steady.andThen fun options => (readWords_steady _).andThen fun args =>
    invocation.bind fun _ _ => ident.andThen fun _ => ?_
  refine andThen (onSession fun s => .write _ _ _ s) fun _ => get.andThen fun p => ?_
  dsimp only
  refine andThen (onSession fun s => .of_same rfl rfl rfl) fun _ => ?_
  split
  · exact .pure nofun
  · exact (Act.Logs.warn _).steady.andThen fun _ => .pure nofun
  · exact (putOff_steady _).andThen fun _ => .pure nofun

theorem showLocals_steady :
    Act.Steady inv start M (fun _ => True) showLocals := by
  refine ident.andThen fun name => self?.andThen fun e => ?_
  dsimp only
  split
  · exact onSession fun s => .write _ _ _ s
  · exact onSession fun s => .write _ _ _ s

theorem showGlobals_steady :
    Act.Steady inv start M (fun _ => True) showGlobals :=
  world.bind fun _ _ => onSession fun s => .write _ _ _ s

/-- The names of the commands that go on elsewhere. -/
def jumps : List String := ["goto", "gosub", "return"]

theorem flow_steady : ∀ c ∈ flow, c.name ∉ jumps → Steady c.run := by
  simp only [flow, List.forall_mem_cons, List.not_mem_nil, false_implies, implies_true, and_true]
  refine ⟨fun _ => finish_steady _, fun _ => finish_steady _, fun _ => runIf_steady,
    fun _ => runElse_steady, fun h => ?_, fun h => ?_, fun h => ?_, fun _ => runRandom_steady⟩
  all_goals simp [jumps] at h

theorem assignment_steady : ∀ c ∈ assignment, Steady c.run := by
  simp only [assignment, List.forall_mem_cons, List.not_mem_nil, false_implies, implies_true,
    and_true]
  exact ⟨runSet_steady, runUnset_steady, runArithmetic_steady _, runArithmetic_steady _,
    runArithmetic_steady _, runArithmetic_steady _, runArithmetic_steady _, runArithmetic_steady _,
    runArithmetic_steady _, runArithmetic_steady _, runArithmetic_steady _, runStep_steady _,
    runStep_steady _⟩

theorem schedule_steady : ∀ c ∈ schedule, Steady c.run := by
  simp only [schedule, List.forall_mem_cons, List.not_mem_nil, false_implies, implies_true,
    and_true]
  exact ⟨runStopwatch_steady _, runStopwatch_steady _⟩

theorem messaging_steady : ∀ c ∈ messaging, Steady c.run := by
  simp only [messaging, List.forall_mem_cons, List.not_mem_nil, false_implies, implies_true,
    and_true]
  exact ⟨runSend_steady, runSetEvent_steady, runSetMain_steady⟩

theorem membership_steady : ∀ c ∈ membership, Steady c.run := by
  simp only [membership, List.forall_mem_cons, List.not_mem_nil, false_implies, implies_true,
    and_true]
  exact ⟨runSetGroup_steady, runDestroy_steady⟩

theorem gameplay_steady : ∀ c ∈ gameplay, Steady c.run := by
  simp only [gameplay, gameplayCommand, List.forall_mem_cons, List.not_mem_nil, false_implies,
    implies_true, and_true]
  exact ⟨forward_steady _ _, forward_steady _ _, forward_steady _ _, forward_steady _ _,
    forward_steady _ _, forward_steady _ _, forward_steady _ _⟩

theorem listings_steady : ∀ c ∈ listings, Steady c.run := by
  simp only [listings, always, List.forall_mem_cons, List.not_mem_nil, false_implies, implies_true,
    and_true]
  exact ⟨fun _ _ => showLocals_steady.andThen fun _ => .pure nofun,
    fun _ _ => showGlobals_steady.andThen fun _ => .pure nofun,
    fun _ _ => showGlobals_steady.andThen fun _ => showLocals_steady.andThen fun _ => .pure nofun⟩

/-- Every command that a session has either jumps or is steady. -/
theorem builtins_steady {c : Command} (h : c ∈ builtins) (hName : c.name ∉ jumps) :
    Steady c.run := by
  simp only [builtins, List.mem_append] at h
  rcases h with (((((h | h) | h) | h) | h) | h) | h
  · exact flow_steady c h hName
  · exact assignment_steady c h
  · exact schedule_steady c h
  · exact messaging_steady c h
  · exact membership_steady c h
  · exact gameplay_steady c h
  · exact listings_steady c h

end Command

end EntityScript
