import EntityScript.Proofs.Spelling
import EntityScript.Proofs.Uniform

/-! Control statements in two spellings of a script. Evaluating a condition, passing over a statement and
finding its `else` come to the same in both, and leave them at the same part of the script. -/
namespace EntityScript

/-- The same world, and places at the same part of the script. -/
abbrev Progress.Aligned (K : List Call → List Call → Prop) (ps : List Part) :
    Progress → Progress → Prop :=
  Alike K fun pos pos' => Script.Parallel ps (Edition.pick pos pos')

/-- Moving to parallel offsets, whatever is logged on the way. -/
theorem Progress.Alike.move {K : List Call → List Call → Prop} {P : Nat → Nat → Prop} {ps : List Part}
    {p p' : Progress} (h : Alike K P p p') (log log' : Array LogLine) {pos : Edition → Nat}
    (hPos : Script.Parallel ps pos) :
    Aligned K ps (p.read log (pos .original)) (p'.read log' (pos .respelled)) :=
  ⟨h.world, h.host, h.calls, hPos.pick⟩

namespace Act

open Progress (SameWorld Aligned)

variable {K : List Call → List Call → Prop} {ps : List Part} {inv : Invocation} {name : String}
  {registry : Registry} {stance : Stance} {α : Type} {p p' : Progress}

/-- Performed in both spellings of a script, from the same part of it, the acts come to the same and stop
at the same part. -/
abbrev Keeps (K : List Call → List Call → Prop) (ps : List Part) (inv : Invocation) (name : String)
    (act : Act α) : Prop :=
  Agree (SameWorld K) (Aligned K ps) inv (Script.edition name ps .original) (Script.edition name ps .respelled) act act

theorem skipStatement_ok {s : Script} (p : Progress) {stop : Nat} {notes : List Note}
    (h : s.skipStatement (s.size + 1) p.pos = .ok (stop, notes)) :
    ∃ log, Act.skipStatement (inv.within s) p = .ok () (p.read log stop) := by
  obtain ⟨log, hLog⟩ := Logs.emit notes (inv.within s) p
  have hScript : (inv.within s).script = s := rfl
  rw [Act.skipStatement, invocation_bind, get_bind, hScript, h]
  dsimp only
  rw [bind_apply, hLog]
  exact ⟨log, rfl⟩

theorem skipStatement_fault {s : Script} (p : Progress) {f : Fault}
    (h : s.skipStatement (s.size + 1) p.pos = .error f) :
    Act.skipStatement (inv.within s) p = .error (.fault f) p := by
  have hScript : (inv.within s).script = s := rfl
  rw [Act.skipStatement, invocation_bind, get_bind, hScript, h]
  rfl

variable (inv) in
theorem command_ok {s : Script} (p : Progress) {lines : Bool} {scan : Scan (List Char)}
    (h : s.commandAt lines p.pos = .ok scan) :
    ∃ log, Act.command lines (inv.within s) p =
      .ok (String.ofList scan.value) (p.read log scan.stop.pos) := by
  rcases command_cases lines (inv.within s) p with ⟨scan', log, hScan, hRun⟩ | ⟨_, hInvalid⟩
  · obtain rfl := Except.ok.inj (h.symm.trans hScan)
    exact ⟨log, hRun⟩
  · exact absurd (Script.commandAt_holds h).1 hInvalid

theorem command_fault {s : Script} (p : Progress) {lines : Bool} {f : Fault}
    (h : s.commandAt lines p.pos = .error f) :
    Act.command lines (inv.within s) p = .error (.fault .outsideText) p := by
  rcases command_cases lines (inv.within s) p with ⟨scan, _, hScan, _⟩ | ⟨hRun, _⟩
  · exact absurd (h.symm.trans hScan) nofun
  · exact hRun

/-- Passing over a statement. -/
theorem skipStatement_keeps (hSpelling : Script.Respelling ps) :
    Keeps K ps inv name Act.skipStatement := by
  intro p p' hp
  have hFuel (e : Edition) (pos : Nat) :
      (Script.edition name ps e).skipStatement ((Script.edition name ps e).size + 1) pos =
        (Script.edition name ps e).skipStatement ((Script.edition name ps .original).size +
          (Script.edition name ps .respelled).size + 1) pos :=
    Script.skipStatement_enough (by omega) (by omega) (by omega) (by cases e <;> omega)
  cases hSpelling.skipStatement name _ hp.pos with
  | error f hError =>
      rw [skipStatement_fault p ((hFuel .original p.pos).trans (hError .original)),
        skipStatement_fault p' ((hFuel .respelled p'.pos).trans (hError .respelled))]
      exact .error hp.sameWorld
  | ok hStop hOk =>
      obtain ⟨notes, hOriginal⟩ := hOk .original
      obtain ⟨notes', hRespelled⟩ := hOk .respelled
      obtain ⟨log, hRun⟩ := skipStatement_ok p ((hFuel .original p.pos).trans hOriginal)
      obtain ⟨log', hRun'⟩ := skipStatement_ok p' ((hFuel .respelled p'.pos).trans hRespelled)
      rw [hRun, hRun']
      exact .ok True.intro (hp.move log log' hStop)

/-- Looking for a keyword. -/
theorem consume_keeps (hSpelling : Script.Respelling ps) {keyword : List Char}
    (hKeyword : keyword ∈ Script.keywords) :
    Keeps K ps inv name (Act.consume (String.ofList keyword)) := by
  intro p p' hp
  rw [Act.consume, get_bind, get_bind, bind_apply, bind_apply]
  cases hSpelling.commandAt name true hp.pos with
  | error hError =>
      rw [command_fault p (hError .original), command_fault p' (hError .respelled)]
      exact .error hp.sameWorld
  | ok hPlace hOk =>
      obtain ⟨⟨_, hRead⟩, hStop⟩ := hPlace.commandWord hSpelling.words
      obtain ⟨log, hRun⟩ := command_ok inv p (hOk .original)
      obtain ⟨log', hRun'⟩ := command_ok inv p' (hOk .respelled)
      rw [hRun, hRun']
      dsimp only
      simp only [String.ofList_inj, hRead.keyword hKeyword .respelled]
      split
      · exact .ok True.intro (hp.move log log' hStop.parallel)
      · exact .ok True.intro ⟨hp.world, hp.host, hp.calls, hp.pos⟩

/-- Passing over the body of a conditional statement. -/
theorem skipBody_keeps (hSpelling : Script.Respelling ps) :
    Keeps K ps inv name Command.skipBody :=
  (skipStatement_keeps hSpelling).bind fun _ =>
    (consume_keeps hSpelling (List.mem_cons_of_mem _ List.mem_cons_self)).bind fun _ => .pure _

theorem runElse_keeps (hSpelling : Script.Respelling ps) :
    Keeps K ps inv name Command.runElse :=
  (skipStatement_keeps hSpelling).bind fun _ => .pure _

/-- The place that a script holds is the one at its offset. -/
theorem placeAt_eq {s : Script} {q : Place} (h : s.Holds q) : s.placeAt q.pos = q := by
  rw [Script.placeAt, Nat.min_eq_left h.valid.le_size, h.rest_eq]

/-- Conditions that match come to the same, and the places behind them are at the same part. -/
theorem condition_matches {s s' : Script} {q q' : Place} (hHolds : s.Holds q) (hHolds' : s'.Holds q')
    (hPos : p.pos = q.pos) (hPos' : p'.pos = q'.pos)
    (hMatches : (Condition.read q).1.Matches (Condition.read q').1)
    (hStop : Script.Parallel ps (Edition.pick (Condition.read q).2.pos (Condition.read q').2.pos))
    (hp : SameWorld K p p') :
    Outcomes (SameWorld K) (Aligned K ps) (fun _ => True) (Act.condition (inv.within s) p)
      (Act.condition (inv.within s') p') := by
  have hHere : (inv.within s).script.placeAt p.pos = q := hPos ▸ placeAt_eq hHolds
  have hHere' : (inv.within s').script.placeAt p'.pos = q' := hPos' ▸ placeAt_eq hHolds'
  have hBoth : Outcomes (SameWorld K) (SameWorld K) (fun _ => True)
      (judge (Condition.read q).1 (inv.within s) { p with pos := q.pos })
      (judge (Condition.read q').1 (inv.within s') { p' with pos := q'.pos }) :=
    Agree.judge hMatches _ _ ⟨hp.world, hp.host, hp.calls, True.intro⟩
  rw [condition_eq, condition_eq, hHere, hHere']
  generalize judge (Condition.read q).1 (inv.within s) { p with pos := q.pos } = r at hBoth ⊢
  generalize judge (Condition.read q').1 (inv.within s') { p' with pos := q'.pos } = r' at hBoth ⊢
  cases hBoth with
  | ok _ hState => exact .ok True.intro ⟨hState.world, hState.host, hState.calls, hStop⟩
  | error hState => exact .error hState

/-- Behind a word that denotes `if`, the statement goes on at the same part of the script. -/
theorem runIf_outcomes (hSpelling : Script.Respelling ps) {place : Edition → Place}
    (hPlace : Script.Abreast ps place)
    (hIf : Command.normalize (String.ofList
      (Script.commandWord (place .original).pos (place .original).rest).value) = "if")
    (hPos : p.pos = (Script.commandWord (place .original).pos (place .original).rest).stop.pos)
    (hPos' : p'.pos = (Script.commandWord (place .respelled).pos (place .respelled).rest).stop.pos)
    (hp : SameWorld K p p') :
    Outcomes (SameWorld K) (Aligned K ps) (fun _ => True)
      (Command.runIf (inv.within (Script.edition name ps .original)) p)
      (Command.runIf (inv.within (Script.edition name ps .respelled)) p') := by
  obtain ⟨hMatches, hBehind⟩ := hSpelling.condition hPlace hIf
  obtain ⟨-, hWord⟩ := hPlace.commandWord hSpelling.words
  have hCondition : Outcomes (SameWorld K) (Aligned K ps) (fun _ => True)
      (Act.condition (inv.within (Script.edition name ps .original)) p)
      (Act.condition (inv.within (Script.edition name ps .respelled)) p') :=
    condition_matches (hWord.holds name .original) (hWord.holds name .respelled) hPos hPos' hMatches
      hBehind.parallel.pick hp
  refine hCondition.act_bind fun answer q q' _ hState => ?_
  have hSkip (reply : Reply) : Keeps K ps inv name (do Command.skipBody; return reply) :=
    (skipBody_keeps hSpelling).bind fun _ => .pure _
  match answer with
  | some true => exact .ok True.intro hState
  | some false => exact hSkip .success _ _ hState
  | none => exact hSkip .failed _ _ hState

end Act

end EntityScript
