import EntityScript.Proofs.Advance

/-! Reading variables, replacing references and evaluating conditions are steady: they look at the
session and leave its variables, entities and timers alone. They come only upon names of the
script. -/
namespace EntityScript.Act.Steady

variable {inv : Invocation} {start : Progress} {M : Nat → Prop}

theorem draw {bound : Float} (hBound : (SystemName.random bound).Boundless → inv.script.Boundless) :
    Steady inv start M (fun _ => True) (Act.draw bound) := by
  intro p hp
  unfold Ends
  rw [Act.draw, world_bind, World.draw]
  by_cases hNone : bound ≤ 0
  · rw [if_pos hNone]
    exact ⟨⟨hp.session.trans (.of_same rfl rfl rfl), hp.pos, hp.calls⟩, True.intro⟩
  · rw [if_neg hNone]
    by_cases hFinite : bound.isFinite = true
    · rw [if_pos hFinite]
      exact ⟨⟨hp.session.trans (.of_same rfl rfl rfl), hp.pos, hp.calls⟩, True.intro⟩
    · rw [if_neg hFinite]
      exact ⟨.inl ⟨rfl, hBound ⟨hNone, Bool.not_eq_true _ ▸ hFinite⟩⟩, hp.session⟩

/-! Reading variables and replacing references leaves the place alone, wherever it is. -/

theorem systemValue {name : String}
    (hName : (SystemName.parse (name.toList.drop 1)).Boundless → inv.script.Boundless) :
    Steady inv start M (fun _ => True) (Act.systemValue name) := by
  refine invocation.bind fun _ _ => ?_
  generalize SystemName.parse (name.toList.drop 1) = asked at hName ⊢
  split
  · exact ident.andThen fun _ => .pure True.intro
  · exact world.bind fun _ _ => .pure True.intro
  · exact world.bind fun _ _ => .pure True.intro
  · exact .pure True.intro
  · exact world.bind fun _ _ => self?.andThen fun _ => .pure True.intro
  · exact (draw hName).andThen fun _ => .pure True.intro
  · refine (resolve? _).andThen fun _ => world.bind fun _ _ => self?.andThen fun _ => ?_
    split
    · exact .pure True.intro
    · exact .pure True.intro
  · refine get.andThen fun _ => ?_
    dsimp only
    refine andThen (onSession fun s => .of_same rfl rfl rfl) fun _ => ?_
    split
    · exact .pure True.intro
    · exact (Logs.warn _).steady.andThen fun _ => .pure True.intro

theorem table? (scope : Scope) : Steady inv start M (fun _ => True) (Act.table? scope) := by
  unfold Act.table?
  split
  · exact world.bind fun _ _ => .pure True.intro
  · exact self?.andThen fun _ => .pure True.intro

theorem readKey (key : VarKey) : Steady inv start M (fun _ => True) (Act.readKey key) :=
  (table? _).andThen fun _ => .pure True.intro

theorem readVar {name : String} (hName : inv.script.Names name) :
    Steady inv start M (fun _ => True) (Act.readVar name) := by
  unfold Act.readVar
  split
  · rename_i hSystem
    exact systemValue fun hBoundless => ⟨name, hName, hSystem, hBoundless⟩
  · split
    · exact readKey _
    · exact .pure True.intro

theorem readFloat {name : String} (hName : inv.script.Names name) :
    Steady inv start M (fun _ => True) (Act.readFloat name) := by
  unfold Act.readFloat
  split
  · exact (readVar hName).andThen fun _ => .pure True.intro
  · exact .pure True.intro

theorem referenceText {reference : List Char}
    (hName : inv.script.Names (Piece.target reference).2) :
    Steady inv start M (fun _ => True) (Act.referenceText reference) := by
  unfold Act.referenceText
  generalize Piece.target reference = target at hName ⊢
  split
  · exact (readVar hName).andThen fun _ => .pure True.intro
  · exact (readVar hName).andThen fun _ => .pure True.intro

theorem pieceText {word : String} (hWord : inv.script.Writes word) :
    ∀ piece ∈ Piece.parts word, Steady inv start M (fun _ => True) (Act.pieceText piece)
  | .literal _, _ => .pure True.intro
  | .reference _, hPiece => referenceText (.reference hWord hPiece)
  | .unmatched _, _ => (Logs.warn _).steady.andThen fun _ => .pure True.intro

/-- Replacing the references of a word of the script comes to a name of the script. -/
theorem expand {word : String} (hWord : inv.script.Writes word) :
    Steady inv start M inv.script.Names (Act.expand word) := by
  have hTexts : Steady inv start M (fun _ => True) (Act.expand word) :=
    (mapM (pieceText hWord)).andThen fun _ => .pure True.intro
  intro p hp
  have hEnds := hTexts p hp
  unfold Ends at hEnds ⊢
  cases hRun : Act.expand word inv p with
  | ok name q =>
      rw [hRun] at hEnds
      exact ⟨hEnds.1, .expansion hWord hRun⟩
  | error h q =>
      rw [hRun] at hEnds
      exact hEnds

theorem rawWord : Steady inv start (inv.script.Onward start.pos) inv.script.Writes Act.rawWord := by
  intro p hp
  obtain ⟨log, hRun⟩ := rawWord_eq inv p
  refine .of_ok hRun ⟨⟨hp.session.trans (.of_same rfl rfl rfl), ?_, hp.calls⟩,
    .argument p.pos (inv.script.rest_suffix p.pos)⟩
  exact hp.pos.trans (Script.onward_of_reaches (Script.nextWord_reaches _ _))

theorem word : Steady inv start (inv.script.Onward start.pos) inv.script.Names Act.word :=
  rawWord.bind fun _ hWord => expand hWord

theorem float : Steady inv start (inv.script.Onward start.pos) (fun _ => True) Act.float :=
  word.bind fun _ hName => readFloat hName

theorem bool : Steady inv start (inv.script.Onward start.pos) (fun _ => True) Act.bool :=
  word.bind fun _ _ => .pure True.intro

theorem onTable (scope : Scope) (f : Variables → Variables) :
    Steady inv start M (fun _ => True) (Act.onTable scope f) := by
  unfold Act.onTable
  split
  · exact andThen (onWorld fun _ => ⟨rfl, rfl, rfl⟩) fun _ => .pure True.intro
  · exact onSelf fun _ => ⟨rfl, rfl⟩

theorem writeVar (key : VarKey) (v : Value) :
    Steady inv start M (fun _ => True) (Act.writeVar key v) := onTable _ _

theorem unsetVar (key : VarKey) : Steady inv start M (fun _ => True) (Act.unsetVar key) :=
  (table? _).andThen fun _ => andThen (map (onTable _ _)) fun _ => .pure True.intro
/-! A condition is read from the text alone; evaluating it moves nothing but the log, the random
numbers and the game. -/

theorem moveAbout (pos : Nat) :
    Steady inv start (fun _ => True) (fun _ => True)
      (modify fun p => { p with pos } : Act Unit) :=
  fun _ hp => ⟨⟨hp.session, True.intro, hp.calls⟩, True.intro⟩

theorem variableOperand {word : String} (hWord : inv.script.Writes word) :
    Steady inv start M (fun _ => True) (Act.variableOperand word) := by
  refine (readVar (.word hWord)).andThen fun v => ?_
  split
  · exact .pure True.intro
  · exact .pure True.intro

theorem literalOperand {word : String} (hWord : inv.script.Writes word) (kind : Kind) :
    Steady inv start M (fun _ => True) (Act.literalOperand word kind) := by
  refine (expand hWord).bind fun text _ => ?_
  split
  · exact .pure True.intro
  · exact .pure True.intro

theorem operand {word : String} (hWord : inv.script.Writes word) (kind : Kind) :
    Steady inv start M (fun _ => True) (Act.operand word kind) := by
  unfold Act.operand
  split
  · exact variableOperand hWord
  · exact literalOperand hWord kind

theorem equalityOperands {left right : String} (hLeft : inv.script.Writes left)
    (hRight : inv.script.Writes right) :
    Steady inv start M (fun _ => True) (Act.equalityOperands left right) := by
  unfold Act.equalityOperands
  split
  · exact (variableOperand hLeft).andThen fun _ => (operand hRight _).andThen fun _ =>
      .pure True.intro
  · split
    · exact (variableOperand hRight).andThen fun _ => (literalOperand hLeft _).andThen fun _ =>
        .pure True.intro
    · refine (expand hLeft).bind fun _ _ => (expand hRight).bind fun _ _ => ?_
      split
      · exact .pure True.intro
      · exact .pure True.intro

theorem operands {c : Comparison} (hLeft : inv.script.Writes c.left)
    (hRight : inv.script.Writes c.right) :
    Steady inv start M (fun _ => True) (Act.operands c) := by
  unfold Act.operands
  split
  · exact equalityOperands hLeft hRight
  · exact equalityOperands hLeft hRight
  · exact (operand hLeft _).andThen fun _ => (operand hRight _).andThen fun _ => .pure True.intro
  · exact (operand hLeft _).andThen fun _ => (operand hRight _).andThen fun _ => .pure True.intro
  · exact (operand hLeft _).andThen fun _ => (operand hRight _).andThen fun _ => .pure True.intro
  · exact (operand hLeft _).andThen fun _ => (operand hRight _).andThen fun _ => .pure True.intro
  · exact (operand hLeft _).andThen fun _ => (operand hRight _).andThen fun _ => .pure True.intro

theorem compare {c : Comparison} (hLeft : inv.script.Writes c.left)
    (hRight : inv.script.Writes c.right) :
    Steady inv start (fun _ => True) (fun _ => True) (Act.compare c) := by
  refine (Logs.emit _).steady.andThen fun _ => (moveAbout _).andThen fun _ =>
    (operands hLeft hRight).andThen fun _ => world.bind fun _ _ => invocation.bind fun _ _ => ?_
  split
  · exact .pure True.intro
  · exact (Logs.warn _).steady.andThen fun _ => .pure True.intro

mutual

theorem judge {c : Condition} (hc : c.Written inv.script) :
    Steady inv start (fun _ => True) (fun _ => True) (Act.judge c) := by
  cases c with
  | comparison c => exact (compare hc.1 hc.2).andThen fun _ => .pure True.intro
  | negation inner => exact (judge (c := inner) hc).andThen fun _ => .pure True.intro
  | junction all parts => exact judgeParts all _ hc
  | broken b => exact (Logs.emit _).steady.andThen fun _ => .pure True.intro
  | cut inner b =>
      refine (judge (c := inner) hc).andThen fun j => ?_
      dsimp only
      split
      · exact (Logs.emit _).steady.andThen fun _ => .pure True.intro
      · exact .pure True.intro

theorem judgeParts (all : Bool) (sofar : Judgement) {parts : List Condition}
    (hParts : Condition.Written.AllWritten inv.script parts) :
    Steady inv start (fun _ => True) (fun _ => True) (Act.judgeParts all sofar parts) := by
  cases parts with
  | nil => exact .pure True.intro
  | cons c cs =>
      rw [Act.judgeParts]
      split
      · refine (judge hParts.1).andThen fun j => ?_
        split
        · exact .pure True.intro
        · exact judgeParts all _ hParts.2
      · refine (Logs.emit _).steady.andThen fun _ => ?_
        split
        · exact .pure True.intro
        · exact judgeParts all sofar hParts.2

end

/-- Evaluating the condition at the cursor reads on to the place behind it. -/
theorem condition :
    Steady inv start (inv.script.Onward start.pos) (fun _ => True) Act.condition := by
  intro p hp
  let here := min p.pos inv.script.size
  let scanned := Condition.read ⟨here, inv.script.rest here⟩
  change Ends inv start (Act.judge scanned.1 >>= fun judgement =>
    modify (fun q => { q with pos := scanned.2.pos }) >>= fun _ =>
      Pure.pure (judgement.bind fun j => if j.sound then some j.value else none))
    { p with pos := here } _
  have hHere : inv.script.Onward start.pos here :=
    hp.pos.trans (Script.onward_clamp _ _)
  have hBehind : inv.script.Onward here scanned.2.pos :=
    Script.onward_of_reaches (Condition.read_reaches _)
  have hWritten : scanned.1.Written inv.script :=
    Condition.read_written (inv.script.rest_suffix here)
  refine (judge hWritten { p with pos := here } ⟨hp.session, True.intro, hp.calls⟩).bind ?_
  intro judgement q hq
  exact ⟨⟨hq.1.session, hHere.trans hBehind, hq.1.calls⟩, True.intro⟩

end EntityScript.Act.Steady
