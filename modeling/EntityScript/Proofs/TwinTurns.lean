import EntityScript.Proofs.TwinCommands
import EntityScript.Proofs.Turns

/-! A turn goes the same way in two dispatches. Behind it the entity of the script may be gone. -/
namespace EntityScript

/-- The turn asks for no other dispatch. -/
def Turn.Quiet : Turn → Prop
  | .send _ _ => False
  | _ => True

/-- The turn does not end the dispatch as one whose entity is gone. -/
def Turn.Stays (turn : Turn) : Prop := turn ≠ .finish .destructive

/-- The turn asks for nothing but to go on in the script, or to end there. -/
def Turn.Plain (turn : Turn) : Prop := turn.Quiet ∧ turn.Stays

/-- The command goes the same way in two dispatches. Where `S` holds before it, `T` holds behind it. -/
def Command.InStep (S T : Session → Session → Prop) (inv inv' : Invocation) (c : Command) : Prop :=
  ∀ p p', p.Beside S p' →
    Paired (Progress.Beside T) (fun _ => True) (c.run inv p) (c.run inv' p')

namespace Act

variable {S T : Session → Session → Prop} {inv inv' : Invocation} {registry : Registry}

theorem announce_twin (hS : Sees S inv inv') (word : String) :
    Twin S inv inv' (fun _ => True) (announce word) :=
  hS.invocation (fun _ _ => rfl) (hS.ident.andThen fun _ => hS.write _ _ _)

theorem mayGive_twin (hS : Sees S inv inv') (c : Command) :
    Twin S inv inv' (fun _ => True) (mayGive c) :=
  hS.self?.andThen fun _ => .pure True.intro

theorem answer_twin (hUnder : ∃ dry suppressions, inv' = inv.under dry suppressions)
    (stance : Stance) (r : Reply) :
    Twin S inv inv' (fun turn => r.Quiet → turn.Quiet) (answer stance r) := by
  cases r with
  | jumped =>
      apply Twin.invocation hUnder (fun _ _ => rfl)
      apply Twin.here
      · intro p p' hp
        rw [hp.pos]
      · exact fun _ => .pure fun _ => True.intro
  | send e => exact .pure fun hQuiet => hQuiet.elim
  | _ => exact .pure fun _ => True.intro

theorem closeEvent_twin (hS : Watches S inv inv') (stance : Stance) :
    Twin S inv inv' Turn.Plain (closeEvent stance) := by
  have hTail (resumes : Bool) : Twin S inv inv' Turn.Plain (if resumes = true then do
      debug "suppressed: block end without accept or refuse"
      return Turn.go stance
    else do
      warnAt "\x7d" "missing accept or refuse before end of event block"
      return .finish .accept) := by
    split
    · exact (hS.debug _).andThen fun _ => .pure ⟨True.intro, nofun⟩
    · exact (hS.token _ _ _).andThen fun _ => .pure ⟨True.intro, nofun⟩
  intro p p' hp
  obtain ⟨dry, suppressions, hUnder⟩ := hS.under
  have hResumes : inv'.suppressions.resumes inv'.script.name p'.pos =
      inv.suppressions.resumes inv.script.name p.pos := by
    rw [hp.pos, ← hS.resumes, hUnder]
    rfl
  unfold closeEvent
  rw [invocation_bind, invocation_bind, get_bind, get_bind, hResumes]
  exact hTail _ p p' hp

theorem passWord_twin (hS : Watches S inv inv') (stance : Stance) (word : String) :
    Twin S inv inv' Turn.Plain (passWord stance word) := by
  unfold passWord
  split
  · exact hS.skipLine.map.andThen fun _ => .pure ⟨True.intro, nofun⟩
  split
  · exact .pure ⟨True.intro, nofun⟩
  split
  · split
    · exact closeEvent_twin hS stance
    · exact .pure ⟨True.intro, nofun⟩
  split
  · exact (hS.token _ _ _).andThen fun _ => .pure ⟨True.intro, nofun⟩
  · apply (hS.token _ _ _).andThen
    exact fun _ => hS.skipLine.map.andThen fun _ => .pure ⟨True.intro, nofun⟩

theorem openEvent_twin (hS : Watches S inv inv') : Twin S inv inv' (fun _ => True) openEvent := by
  apply (hS.command true).andThen
  intro word
  split
  · exact .pure True.intro
  · exact (hS.token _ _ _).andThen fun _ => .pure True.intro

/-- What an entity may not give is passed over. -/
theorem passOver_twin (hS : Watches S inv inv') (word : String) :
    Twin S inv inv' Reply.Plain (do
      warnAt word ("command '" ++ word ++ "' cannot run on this entity")
      discard skipLine
      return Reply.failed) :=
  (hS.token _ _ _).andThen fun _ => hS.skipLine.map.andThen fun _ => .pure ⟨True.intro, nofun⟩

theorem endText_twin (hS : Sees S inv inv') (stance : Stance) :
    Twin S inv inv' Turn.Plain (do
      unless stance.line do warn "missing '\x7d' before end of script"
      return Turn.finish .accept) := by
  split
  · exact .pure ⟨True.intro, nofun⟩
  · exact (hS.warn _).andThen fun _ => .pure ⟨True.intro, nofun⟩

variable {p p' : Progress} (hST : ∀ s s', S s s' → T s s')

include hST in
theorem obey_paired (hS : Serves S inv inv') (hDry : inv'.dry = inv.dry) {c : Command}
    (hCommand : c.InStep S T inv inv') (word : String) (hp : p.Beside S p') :
    Paired (Progress.Beside T) (fun _ => True) (obey c word inv p) (obey c word inv' p') := by
  apply (mayGive_twin hS.toSees c p p' hp).act_bind hST
  intro allowed q q' _ hq
  cases allowed with
  | true =>
      simp only [if_true]
      rw [invocation_bind, invocation_bind, hDry]
      split
      · exact .ok True.intro (hq.mono hST)
      · exact hCommand q q' hq
  | false =>
      exact Outcomes.mono (passOver_twin hS.toWatches word q q' hq) (fun _ _ h => h.mono hST)
        (fun _ _ h => h.mono hST) fun _ _ => True.intro

variable (hCommands : ∀ {word c}, registry.find? word = some c → c.InStep S T inv inv')

include hST hCommands

theorem follow_paired (hS : Serves S inv inv') (hDry : inv'.dry = inv.dry) (stance : Stance)
    (word : String) (hp : p.Beside S p') :
    Paired (Progress.Beside T) (fun _ => True) (follow registry stance word inv p)
      (follow registry stance word inv' p') := by
  have hAnswer (r : Reply) : Twin T inv inv' (fun _ => True) (answer stance r) :=
    (answer_twin hS.under stance r).mono fun _ _ => True.intro
  unfold follow
  cases hCommand : registry.find? word with
  | some c =>
      refine (obey_paired hST hS hDry (hCommands hCommand) word hp).act_bind (fun _ _ h => h)
        fun r q q' _ hq => ?_
      exact hAnswer r q q' hq
  | none =>
      cases hTimer : behind? "timer" word.toList with
      | some name =>
          dsimp only
          rw [invocation_bind, invocation_bind, hDry]
          split
          · exact .ok True.intro (hp.mono hST)
          · refine (Command.runTimer_twin hS (String.ofList name) p p' hp).act_bind hST
              fun r q q' _ hq => ?_
            exact hAnswer r q q' (hq.mono hST)
      | none =>
          exact Outcomes.mono (passWord_twin hS.toWatches stance word p p' hp)
            (fun _ _ h => h.mono hST) (fun _ _ h => h.mono hST) fun _ _ => True.intro

/-- Every turn goes the same way in both dispatches. -/
theorem turn_paired (hS : Serves S inv inv') (hDry : inv'.dry = inv.dry) (stance : Stance)
    (hp : p.Beside S p') :
    Paired (Progress.Beside T) (fun _ => True) (turn registry stance inv p)
      (turn registry stance inv' p') := by
  apply (hS.command _ p p' hp).act_bind hST
  intro word q q' _ hq
  split
  · exact Outcomes.mono (endText_twin hS.toSees stance q q' hq) (fun _ _ h => h.mono hST)
      (fun _ _ h => h.mono hST) fun _ _ => True.intro
  · apply (announce_twin hS.toSees word q q' hq).act_bind hST
    intro _ q q' _ hq
    exact follow_paired hST hCommands hS hDry stance word hq

end Act

end EntityScript
