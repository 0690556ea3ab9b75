import EntityScript.Proofs.Readings
import EntityScript.Proofs.Twins

/-! Reading variables, replacing references and evaluating conditions only look at the session: two
dispatches that see the same go the same way. The random numbers that are drawn are those that a name
of the script asks for. -/
namespace EntityScript

/-- A draw changes nothing but the random numbers. -/
theorem World.draw_ok {w w' : World} {bound x : Float} (h : w.draw bound = .ok (x, w')) :
    (bound ≤ 0 ∧ w' = w) ∨ (¬ bound ≤ 0 ∧ ∃ random, w' = { w with random }) := by
  unfold draw at h
  split at h
  · rename_i hNone
    cases h
    exact .inl ⟨hNone, rfl⟩
  · rename_i hBound
    split at h
    · cases h
      exact .inr ⟨hBound, _, rfl⟩
    · cases h

namespace Act

variable {S : Session → Session → Prop} {inv inv' : Invocation}

namespace Sees

theorem draw (hS : Sees S inv inv') {bound : Float}
    (hDraw : ∀ {s s' x random}, S s s' → ¬ bound ≤ 0 →
      s.world.draw bound = .ok (x, { s.world with random }) →
      S (s.onWorld fun w => { w with random }) (s'.onWorld fun w => { w with random })) :
    Twin S inv inv' (fun _ => True) (Act.draw bound) := by
  intro p p' hp
  have hWorld := hS.world hp.session
  rw [Act.draw, world_bind, world_bind, hWorld]
  cases hRun : p.session.world.draw bound with
  | error f => exact .error hp
  | ok drawn =>
      obtain ⟨x, w⟩ := drawn
      refine .ok True.intro ⟨?_, hp.pos, hp.calls⟩
      rcases World.draw_ok hRun with ⟨_, rfl⟩ | ⟨hBound, random, rfl⟩
      · have hSame : (p'.session.onWorld fun _ => p.session.world) = p'.session := by
          rw [← hWorld]
          rfl
        change S p.session (p'.session.onWorld fun _ => p.session.world)
        rw [hSame]
        exact hp.session
      · have hDrawn := hDraw hp.session hBound hRun
        simpa only [Session.onWorld, hWorld] using hDrawn

/-- The random numbers that a name asks for. -/
theorem drawNamed (hS : Sees S inv inv') {bound : Float}
    (hAsks : inv.script.AsksFor bound) : Twin S inv inv' (fun _ => True) (Act.draw bound) :=
  hS.draw fun hRel hBound hDraw => hS.look hRel (.draw hBound hAsks hDraw)

theorem systemValue (hS : Sees S inv inv') {name : String} (hName : inv.script.Names name)
    (hSystem : isSystemName name = true) :
    Twin S inv inv' (fun _ => True) (Act.systemValue name) := by
  apply hS.invocation (fun _ _ => rfl)
  split
  · exact hS.ident.andThen fun _ => .pure True.intro
  · exact hS.worldValue.andThen fun _ => .pure True.intro
  · exact hS.worldValue.andThen fun _ => .pure True.intro
  · exact .pure True.intro
  · exact hS.worldValue.andThen fun _ => hS.self?.andThen fun _ => .pure True.intro
  · rename_i bound hParse
    exact (hS.drawNamed ⟨name, hName, hSystem, hParse⟩).andThen fun _ => .pure True.intro
  · apply (hS.resolve? _).andThen
    intro _
    apply hS.worldValue.andThen
    intro _
    apply hS.self?.andThen
    intro _
    split
    · exact .pure True.intro
    · exact .pure True.intro
  · -- The answer of the game depends on its tables only, which are the same on both sides.
    have hAsk : Twin S inv inv' (fun _ => True)
        (onSession fun s => { s with host := (s.host.ask name).2 }) := hS.onLook fun _ => .ask name
    intro p p' hp
    have hAnswer : (p'.session.host.ask name).1 = (p.session.host.ask name).1 :=
      congrArg (List.lookup name) (hS.answers hp.session)
    rw [get_bind, get_bind]
    dsimp only
    rw [hAnswer]
    cases (p.session.host.ask name).1 with
    | some v => exact (hAsk.andThen fun _ => .pure True.intro) p p' hp
    | none =>
        have hWarn := hS.warn ("unknown system variable " ++ name)
        exact (hAsk.andThen fun _ => hWarn.andThen fun _ => .pure True.intro) p p' hp

theorem table? (hS : Sees S inv inv') (scope : Scope) :
    Twin S inv inv' (fun _ => True) (Act.table? scope) := by
  unfold Act.table?
  split
  · exact hS.worldValue.andThen fun _ => .pure True.intro
  · exact hS.self?.andThen fun _ => .pure True.intro

theorem readKey (hS : Sees S inv inv') (key : VarKey) :
    Twin S inv inv' (fun _ => True) (Act.readKey key) :=
  (hS.table? _).andThen fun _ => .pure True.intro

theorem readVar (hS : Sees S inv inv') {name : String} (hName : inv.script.Names name) :
    Twin S inv inv' (fun _ => True) (Act.readVar name) := by
  unfold Act.readVar
  split
  · rename_i hSystem
    exact hS.systemValue hName hSystem
  · split
    · exact hS.readKey _
    · exact .pure True.intro

theorem readFloat (hS : Sees S inv inv') {name : String} (hName : inv.script.Names name) :
    Twin S inv inv' (fun _ => True) (Act.readFloat name) := by
  unfold Act.readFloat
  split
  · exact (hS.readVar hName).andThen fun _ => .pure True.intro
  · exact .pure True.intro

theorem referenceText (hS : Sees S inv inv') {reference : List Char}
    (hName : inv.script.Names (Piece.target reference).2) :
    Twin S inv inv' (fun _ => True) (Act.referenceText reference) := by
  unfold Act.referenceText
  generalize Piece.target reference = target at hName ⊢
  split
  · exact (hS.readVar hName).andThen fun _ => .pure True.intro
  · exact (hS.readVar hName).andThen fun _ => .pure True.intro

theorem pieceText (hS : Sees S inv inv') {word : String} (hWord : inv.script.Writes word) :
    ∀ piece ∈ Piece.parts word, Twin S inv inv' (fun _ => True) (Act.pieceText piece)
  | .literal _, _ => .pure True.intro
  | .reference _, hPiece => hS.referenceText (.reference hWord hPiece)
  | .unmatched _, _ => (hS.warn _).andThen fun _ => .pure True.intro

/-- Replacing the references of a word of the script comes to a name of the script. -/
theorem expand (hS : Sees S inv inv') {word : String} (hWord : inv.script.Writes word) :
    Twin S inv inv' inv.script.Names (Act.expand word) := by
  have hTexts : Twin S inv inv' (fun _ => True) (Act.expand word) :=
    (Twin.mapM (hS.pieceText hWord)).andThen fun _ => .pure True.intro
  intro p p' hp
  have hBoth := hTexts p p' hp
  cases hRun : Act.expand word inv p with
  | ok name q =>
      rw [hRun] at hBoth
      generalize Act.expand word inv' p' = r' at hBoth ⊢
      cases hBoth with
      | ok _ hq => exact .ok (.expansion hWord hRun) hq
  | error h q =>
      rw [hRun] at hBoth
      generalize Act.expand word inv' p' = r' at hBoth ⊢
      cases hBoth with
      | error hq => exact .error hq

theorem word (hS : Sees S inv inv') : Twin S inv inv' inv.script.Names Act.word :=
  hS.rawWord.bind fun _ hWord => hS.expand hWord

theorem float (hS : Sees S inv inv') : Twin S inv inv' (fun _ => True) Act.float :=
  hS.word.bind fun _ hName => hS.readFloat hName

theorem bool (hS : Sees S inv inv') : Twin S inv inv' (fun _ => True) Act.bool :=
  hS.word.bind fun _ _ => .pure True.intro

/-! A condition is read from the text alone, and the evaluation looks at its operands. -/

theorem variableOperand (hS : Sees S inv inv') {word : String} (hWord : inv.script.Writes word) :
    Twin S inv inv' (fun _ => True) (Act.variableOperand word) := by
  apply (hS.readVar (.word hWord)).andThen
  intro v
  split
  · exact .pure True.intro
  · exact .pure True.intro

theorem literalOperand (hS : Sees S inv inv') {word : String} (hWord : inv.script.Writes word)
    (kind : Kind) : Twin S inv inv' (fun _ => True) (Act.literalOperand word kind) := by
  apply (hS.expand hWord).bind
  intro text _
  split
  · exact .pure True.intro
  · exact .pure True.intro

theorem operand (hS : Sees S inv inv') {word : String} (hWord : inv.script.Writes word)
    (kind : Kind) : Twin S inv inv' (fun _ => True) (Act.operand word kind) := by
  unfold Act.operand
  split
  · exact hS.variableOperand hWord
  · exact hS.literalOperand hWord kind

theorem equalityOperands (hS : Sees S inv inv') {left right : String}
    (hLeft : inv.script.Writes left) (hRight : inv.script.Writes right) :
    Twin S inv inv' (fun _ => True) (Act.equalityOperands left right) := by
  unfold Act.equalityOperands
  split
  · exact (hS.variableOperand hLeft).andThen fun _ => (hS.operand hRight _).andThen fun _ =>
      .pure True.intro
  · split
    · exact (hS.variableOperand hRight).andThen fun _ => (hS.literalOperand hLeft _).andThen fun _ =>
        .pure True.intro
    · apply (hS.expand hLeft).bind
      intro _ _
      apply (hS.expand hRight).bind
      intro _ _
      split
      · exact .pure True.intro
      · exact .pure True.intro

theorem operands (hS : Sees S inv inv') {c : Comparison} (hLeft : inv.script.Writes c.left)
    (hRight : inv.script.Writes c.right) :
    Twin S inv inv' (fun _ => True) (Act.operands c) := by
  have hOperands (kind : Kind) : Twin S inv inv' (fun _ => True) (do
      let a ← Act.operand c.left kind
      let b ← Act.operand c.right kind
      return (a, b)) :=
    (hS.operand hLeft _).andThen fun _ => (hS.operand hRight _).andThen fun _ => .pure True.intro
  unfold Act.operands
  split
  · exact hS.equalityOperands hLeft hRight
  · exact hS.equalityOperands hLeft hRight
  all_goals exact hOperands _

theorem compare (hS : Sees S inv inv') {c : Comparison} (hLeft : inv.script.Writes c.left)
    (hRight : inv.script.Writes c.right) : Twin S inv inv' (fun _ => True) (Act.compare c) := by
  apply (hS.emit _).andThen
  intro _
  apply (Twin.jumpTo _).andThen
  intro _
  apply (hS.operands hLeft hRight).andThen
  intro _
  apply hS.worldValue.andThen
  intro _
  apply hS.invocation (fun _ _ => rfl)
  split
  · exact .pure True.intro
  · exact (hS.warn _).andThen fun _ => .pure True.intro

mutual

theorem judge (hS : Sees S inv inv') {c : Condition} (hc : c.Written inv.script) :
    Twin S inv inv' (fun _ => True) (Act.judge c) := by
  cases c with
  | comparison c => exact (hS.compare hc.1 hc.2).andThen fun _ => .pure True.intro
  | negation inner => exact (hS.judge (c := inner) hc).andThen fun _ => .pure True.intro
  | junction all parts => exact hS.judgeParts all _ hc
  | broken b => exact (hS.emit _).andThen fun _ => .pure True.intro
  | cut inner b =>
      apply (hS.judge (c := inner) hc).andThen
      intro j
      dsimp only
      split
      · exact (hS.emit _).andThen fun _ => .pure True.intro
      · exact .pure True.intro

theorem judgeParts (hS : Sees S inv inv') (all : Bool) (sofar : Judgement)
    {parts : List Condition} (hParts : Condition.Written.AllWritten inv.script parts) :
    Twin S inv inv' (fun _ => True) (Act.judgeParts all sofar parts) := by
  cases parts with
  | nil => exact .pure True.intro
  | cons c cs =>
      rw [Act.judgeParts]
      split
      · apply (hS.judge hParts.1).andThen
        intro j
        split
        · exact .pure True.intro
        · exact hS.judgeParts all _ hParts.2
      · apply (hS.emit _).andThen
        intro _
        split
        · exact .pure True.intro
        · exact hS.judgeParts all sofar hParts.2

end

theorem moveTo (hS : Sees S inv inv') (pos : Nat) :
    Twin S inv inv' (fun _ => True) (Act.moveTo pos) :=
  hS.invocation (fun _ _ => rfl) (Twin.jumpTo _)

theorem condition (hS : Sees S inv inv') : Twin S inv inv' (fun _ => True) Act.condition := by
  apply Twin.here
  · intro p p' hp
    rw [hp.pos]
  intro p
  apply (hS.moveTo _).andThen
  intro _
  apply Twin.here
  · intro p p' hp
    rw [hp.pos]
  intro p
  apply hS.rest.bind
  intro cs hText
  dsimp only
  apply (hS.judge (Condition.read_written hText)).andThen
  exact fun _ => (Twin.jumpTo _).andThen fun _ => .pure True.intro

end Sees

end Act

end EntityScript
