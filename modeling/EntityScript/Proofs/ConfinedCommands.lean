import EntityScript.Proofs.Confinement

/-! Of the commands only the conditional ones may leave their line unreported: they pass over a
statement. All others read their words and what is left on the line. -/
namespace EntityScript

/-- The command stays on its line, or it reports that it read on beyond it. -/
def Command.Confined (run : Act Reply) : Prop :=
  ∀ inv start excuse, Act.Confined inv start excuse (fun _ => True) run

namespace Command

open Act.Confined

variable {inv : Invocation} {start : Progress} {excuse : Prop}

theorem stopAll_confined : Confined stopAll := fun inv _ _ =>
  .still (fun _ => stopAll_steady) fun log => (stopAll_twin (Act.serves_grown inv log)).mono
    fun _ _ => True.intro

theorem startTimer_confined (name flags : String) {first : String}
    (hFirst : inv.script.Names first) :
    Act.Confined inv start excuse (fun _ => True) (startTimer name flags first) := by
  refine (readFloat hFirst).andThen fun _ => float.andThen fun _ => skipLine.andThen fun left => ?_
  split
  · exact (warn _).andThen fun _ => .pure True.intro
  · refine invocation (world.andThen fun w => ?_)
    exact andThen (onSession fun s => s.write_grown _ _ _) fun _ => .pure True.intro

theorem stopOrStart_confined (name flags : String) {first : String}
    (hFirst : inv.script.Names first) :
    Act.Confined inv start excuse (fun _ => True) (stopOrStart name flags first) := by
  unfold stopOrStart
  split
  · refine invocation ?_
    dsimp only
    split
    · exact andThen (onSession fun s => .refl s) fun _ => .pure True.intro
    · exact .pure True.intro
  · exact startTimer_confined _ _ hFirst

theorem runTimer_confined (name : String) : Confined (runTimer name) := by
  intro inv start excuse
  unfold runTimer
  split
  · exact stopAll_confined inv start excuse
  · refine flags.andThen fun options => word.bind fun first hFirst => ?_
    split
    · split
      · exact stopAll_confined inv start excuse
      · exact flags.andThen fun _ => word.bind fun _ hNext => stopOrStart_confined _ _ hNext
    · exact stopOrStart_confined _ _ hFirst

theorem runStopwatch_confined (starts : Bool) : Confined (runStopwatch starts) := by
  intro inv start excuse
  refine word.bind fun w _ => ?_
  split
  · exact (warn _).andThen fun _ => .pure True.intro
  · exact world.andThen fun _ => markSelf fun _ => ⟨rfl, rfl⟩

/-! Commands that write variables. -/

theorem writable?_confined (word : String) :
    Act.Confined inv start excuse (fun _ => True) (writable? word) :=
  still (fun _ => writable?_steady word) fun log => writable?_twin (Act.serves_grown inv log).toWatches word

theorem operandValue_confined {name : String} (hName : inv.script.Names name) (type : VarType) :
    Act.Confined inv start excuse (fun _ => True) (operandValue name type) :=
  still (fun _ => operandValue_steady hName type) fun log =>
    operandValue_twin (Act.serves_grown inv log).toWatches hName type

theorem assign_confined (key : VarKey) (v : Value) : Confined (assign key v) := fun inv _ _ =>
  .still (fun _ => assign_steady key v) fun log => (assign_twin (Act.serves_grown inv log) key v).mono
    fun _ _ => True.intro

theorem update_confined (key : VarKey) (op : Arithmetic) (operand : Value) :
    Confined (update key op operand) := fun inv _ _ =>
  .still (fun _ => update_steady key op operand) fun log =>
    (update_twin (Act.serves_grown inv log) key op operand).mono fun _ _ => True.intro

theorem setElement_confined : Confined setElement := by
  intro inv start excuse
  refine word.bind fun target _ => word.bind fun index hIndex => word.bind fun list hList =>
    (writable?_confined _).andThen fun found => ?_
  split
  · exact .pure True.intro
  · refine (readFloat hIndex).andThen fun _ => ?_
    dsimp only
    split
    · exact andThen (map (readVar hList)) fun _ => assign_confined _ _ inv start excuse
    · exact assign_confined _ _ inv start excuse

theorem setItemCount_confined : Confined setItemCount := by
  intro inv start excuse
  refine word.bind fun target _ => word.bind fun lead _ =>
    (writable?_confined _).andThen fun found => ?_
  split
  · exact .pure True.intro
  · exact self?.andThen fun _ => assign_confined _ _ inv start excuse

theorem runSet_confined : Confined runSet := by
  intro inv start excuse
  refine flags.andThen fun flags => ?_
  split
  · exact setElement_confined inv start excuse
  · split
    · exact setItemCount_confined inv start excuse
    · refine word.bind fun target _ => word.bind fun value hValue =>
        (writable?_confined _).andThen fun found => ?_
      split
      · exact .pure True.intro
      · exact (operandValue_confined hValue _).andThen fun _ => assign_confined _ _ inv start excuse

theorem runUnset_confined : Confined runUnset := by
  intro inv start excuse
  refine word.bind fun w _ => (writable?_confined _).andThen fun found => ?_
  split
  · exact .pure True.intro
  · exact andThen (map (unsetVar _)) fun _ => .pure True.intro

theorem runArithmetic_confined (op : Arithmetic) : Confined (runArithmetic op) := by
  intro inv start excuse
  refine word.bind fun target _ => word.bind fun operand hOperand =>
    (writable?_confined _).andThen fun found => ?_
  split
  · exact .pure True.intro
  · exact (operandValue_confined hOperand _).andThen fun _ => update_confined _ _ _ inv start excuse

theorem runStep_confined (delta : Int64) : Confined (runStep delta) := by
  intro inv start excuse
  refine word.bind fun w _ => (writable?_confined _).andThen fun found => ?_
  split
  · exact .pure True.intro
  · exact update_confined _ _ _ inv start excuse

/-! Commands about events, entities and the game. -/

theorem parameters_confined : Act.Confined inv start excuse (fun _ => True) parameters := by
  refine hasMore.andThen fun more => ?_
  split
  · exact word.bind fun _ _ => .pure True.intro
  · exact .pure True.intro

theorem audience?_confined (flags : String) :
    Act.Confined inv start excuse (fun _ => True) (audience? flags) := by
  unfold audience?
  split
  · exact word.bind fun _ _ => .pure True.intro
  · split
    · refine word.bind fun w hRadius => ?_
      split
      · exact (readFloat hRadius).andThen fun _ => .pure True.intro
      · exact (debug _).andThen fun _ => .pure True.intro
    · exact .pure True.intro

theorem enqueueAll_grown (this : EntityId) (event : EventName) (parameters : Parameters)
    (targets : List EntityId) (s : Session) :
    (enqueueAll this event parameters targets s).2.Grown s.log := by
  induction targets generalizing s with
  | nil => exact .refl s
  | cons target rest ih => exact (Session.enqueue_grown _ s).trans (ih _)

theorem broadcast_confined (this : EntityId) (event : EventName) (parameters : Parameters)
    (targets : List EntityId) : Act.Confined inv start excuse (fun _ => True) (do
      let (queued, s) := enqueueAll this event parameters targets (← get).session
      Act.onSession fun _ => s
      Act.debug ("sendevent " ++ event.shown ++ " queued for " ++ toString queued ++ " entities")
      return Reply.success) := by
  intro p r q hp hRun
  have hQueued : Within inv start excuse
      { p with session := (enqueueAll this event parameters targets p.session).2 } :=
    hp.still rfl rfl (enqueueAll_grown _ _ _ _ _)
  have hTail : Act.Confined inv start excuse (fun _ => True) (do
      Act.debug ("sendevent " ++ event.shown ++ " queued for " ++
        toString (enqueueAll this event parameters targets p.session).1 ++ " entities")
      return Reply.success) := (debug _).andThen fun _ => .pure True.intro
  exact hTail _ r q hQueued hRun

theorem runSend_confined : Confined runSend := by
  intro inv start excuse
  refine flags.andThen fun options => (audience?_confined _).andThen fun audience =>
    word.bind fun name _ => ?_
  dsimp only
  split
  · refine word.bind fun target _ => parameters_confined.andThen fun _ =>
      (resolve? _).andThen fun found => ?_
    split
    · exact (token _ _ _).andThen fun _ => .pure True.intro
    · exact .pure True.intro
  · exact parameters_confined.andThen fun _ =>
      invocation (world.andThen fun _ => broadcast_confined _ _ _ _)

theorem runSetEvent_confined : Confined runSetEvent := by
  intro inv start excuse
  refine word.bind fun name _ => bool.andThen fun enabled => ?_
  split
  · exact (warn _).andThen fun _ => .pure True.intro
  · exact markSelf fun _ => ⟨rfl, rfl⟩

theorem runSetMain_confined : Confined runSetMain := by
  intro inv start excuse
  refine word.bind fun name _ => ?_
  split
  · exact (warn _).andThen fun _ => .pure True.intro
  · exact markSelf fun _ => ⟨rfl, rfl⟩

theorem runSetGroup_confined : Confined runSetGroup := by
  intro inv start excuse
  refine flags.andThen fun options => word.bind fun group _ => ?_
  split
  · exact (warn _).andThen fun _ => .pure True.intro
  · exact markSelf fun _ => ⟨rfl, rfl⟩

theorem runDestroy_confined : Confined runDestroy := by
  intro inv start excuse
  refine word.bind fun w _ => (resolve? _).andThen fun found => ?_
  split
  · exact (token _ _ _).andThen fun _ => .pure True.intro
  · exact andThen (onSession fun s => s.destroy_grown _) fun _ => invocation (.pure True.intro)

theorem readWords_confined (n : Nat) :
    Act.Confined inv start excuse (fun _ => True) (readWords n) := by
  induction n with
  | zero => exact .pure True.intro
  | succ n ih => exact word.bind fun _ _ => ih.andThen fun _ => .pure True.intro

theorem putOff_confined (delay : Duration) :
    Act.Confined inv start excuse (fun _ => True) (putOff delay) := by
  refine skipLine.andThen fun left => ?_
  split
  · exact .pure True.intro
  · exact invocation (world.andThen fun w => onSession fun s => s.write_grown _ _ _)

theorem forward_confined (name : String) (arity : Nat) : Confined (forward name arity) := by
  intro inv start excuse
  have hIdent : Act.Confined inv start excuse (fun _ => True) Act.ident :=
    self?.andThen fun _ => .pure True.intro
  refine flags.andThen fun options => (readWords_confined _).andThen fun args =>
    invocation (hIdent.andThen fun _ => ?_)
  refine andThen (onSession fun s => s.write_grown _ _ _) fun _ => here fun p => ?_
  dsimp only
  refine andThen (onSession fun s => .refl s) fun _ => ?_
  split
  · exact .pure True.intro
  · exact (warn _).andThen fun _ => .pure True.intro
  · exact (putOff_confined _).andThen fun _ => .pure True.intro

theorem showLocals_confined : Act.Confined inv start excuse (fun _ => True) showLocals :=
  still (fun _ => showLocals_steady) fun log => showLocals_twin (Act.serves_grown inv log).toWatches

theorem showGlobals_confined : Act.Confined inv start excuse (fun _ => True) showGlobals :=
  still (fun _ => showGlobals_steady) fun log => showGlobals_twin (Act.serves_grown inv log).toWatches

/-- The commands that pass over a statement. -/
def branches : List String := ["if", "else", "random"]

theorem flow_confined : ∀ c ∈ flow, c.name ∉ branches → c.name ∉ jumps → Confined c.run := by
  simp only [flow, List.forall_mem_cons, List.not_mem_nil, false_implies, implies_true, and_true]
  refine ⟨fun _ _ _ _ _ => .pure True.intro, fun _ _ _ _ _ => .pure True.intro, fun h => ?_,
    fun h => ?_, fun _ h => ?_, fun _ h => ?_, fun _ h => ?_, fun h => ?_⟩
  all_goals simp [branches, jumps] at h

theorem assignment_confined : ∀ c ∈ assignment, Confined c.run := by
  simp only [assignment, List.forall_mem_cons, List.not_mem_nil, false_implies, implies_true,
    and_true]
  exact ⟨runSet_confined, runUnset_confined, runArithmetic_confined _, runArithmetic_confined _,
    runArithmetic_confined _, runArithmetic_confined _, runArithmetic_confined _,
    runArithmetic_confined _, runArithmetic_confined _, runArithmetic_confined _,
    runArithmetic_confined _, runStep_confined _, runStep_confined _⟩

theorem schedule_confined : ∀ c ∈ schedule, Confined c.run := by
  simp only [schedule, List.forall_mem_cons, List.not_mem_nil, false_implies, implies_true,
    and_true]
  exact ⟨runStopwatch_confined _, runStopwatch_confined _⟩

theorem messaging_confined : ∀ c ∈ messaging, Confined c.run := by
  simp only [messaging, List.forall_mem_cons, List.not_mem_nil, false_implies, implies_true,
    and_true]
  exact ⟨runSend_confined, runSetEvent_confined, runSetMain_confined⟩

theorem membership_confined : ∀ c ∈ membership, Confined c.run := by
  simp only [membership, List.forall_mem_cons, List.not_mem_nil, false_implies, implies_true,
    and_true]
  exact ⟨runSetGroup_confined, runDestroy_confined⟩

theorem gameplay_confined : ∀ c ∈ gameplay, Confined c.run := by
  simp only [gameplay, gameplayCommand, List.forall_mem_cons, List.not_mem_nil, false_implies,
    implies_true, and_true]
  exact ⟨forward_confined _ _, forward_confined _ _, forward_confined _ _, forward_confined _ _,
    forward_confined _ _, forward_confined _ _, forward_confined _ _⟩

theorem listings_confined : ∀ c ∈ listings, Confined c.run := by
  simp only [listings, always, List.forall_mem_cons, List.not_mem_nil, false_implies, implies_true,
    and_true]
  exact ⟨fun _ _ _ => showLocals_confined.andThen fun _ => .pure True.intro,
    fun _ _ _ => showGlobals_confined.andThen fun _ => .pure True.intro,
    fun _ _ _ => showGlobals_confined.andThen fun _ => showLocals_confined.andThen fun _ =>
      .pure True.intro⟩

/-- Every command that a session has branches, jumps, or is confined. -/
theorem builtins_confined {c : Command} (h : c ∈ builtins) (hBranch : c.name ∉ branches)
    (hJump : c.name ∉ jumps) : Confined c.run := by
  simp only [builtins, List.mem_append] at h
  rcases h with (((((h | h) | h) | h) | h) | h) | h
  · exact flow_confined c h hBranch hJump
  · exact assignment_confined c h
  · exact schedule_confined c h
  · exact messaging_confined c h
  · exact membership_confined c h
  · exact gameplay_confined c h
  · exact listings_confined c h

end Command

end EntityScript
