import EntityScript.Proofs.RespelledCommands
import EntityScript.Proofs.RespelledLabels

/-! A turn of a dispatch in two spellings of a script. Each spelling has the same command at the same part,
and what comes of it is the same. -/
namespace EntityScript

/-- Return points at the same parts of the script. -/
def Script.Returns (ps : List Part) : List Call → List Call → Prop :=
  List.Forall₂ fun c c' => c'.label = c.label ∧ Parallel ps (Edition.pick c.returnPos c'.returnPos)

/-- Behind a closing brace of an event, the suppressions let both texts go on at the same parts. -/
def Script.Resumes (ps : List Part) (name : String) (suppressions : Suppressions) : Prop :=
  ∀ pos, Parallel ps pos →
    suppressions.resumes name (pos .respelled) = suppressions.resumes name (pos .original)

/-- The two texts decide in the same way which of two acts is performed. -/
theorem Outcomes.act_ite {E R : Progress → Progress → Prop} {inv inv' : Invocation} {α : Type}
    {Q : α → Prop} {c c' : Prop} [Decidable c] [Decidable c'] {x x' y y' : Act α} {p p' : Progress}
    (h : c' ↔ c) (hx : c → Outcomes E R Q (x inv p) (x' inv' p'))
    (hy : ¬ c → Outcomes E R Q (y inv p) (y' inv' p')) :
    Outcomes E R Q ((if c then x else y) inv p) ((if c' then x' else y') inv' p') := by
  by_cases hc : c
  · rw [if_pos hc, if_pos (h.mpr hc)]
    exact hx hc
  · rw [if_neg hc, if_neg (not_congr h |>.mpr hc)]
    exact hy hc

namespace Command

theorem mem_flow_of_control {c : Command} (h : c ∈ builtins) (hName : c.name ∈ controls) : c ∈ flow := by
  have hOthers : ∀ name ∈ (assignment ++ schedule ++ messaging ++ membership ++ gameplay ++
      listings).map Command.name, name ∉ controls := by decide
  simp only [builtins, List.append_assoc, List.mem_append] at h
  rcases h with h | h
  · exact h
  · exact absurd hName (hOthers _ (List.mem_map_of_mem (by simpa using h)))

/-- What a command that decides which statements run does. -/
theorem control_run {c : Command} (h : c ∈ builtins) (hName : c.name ∈ controls) :
    c.run = (return .finish .accept) ∨ c.run = (return .finish .refuse) ∨ c.run = runElse ∨
      c.run = runReturn ∨ (c.name = "if" ∧ c.run = runIf) := by
  have hFlow := mem_flow_of_control h hName
  simp only [flow, List.mem_cons, List.not_mem_nil, or_false] at hFlow
  rcases hFlow with rfl | rfl | rfl | rfl | rfl | rfl | rfl | rfl
  · exact .inl rfl
  · exact .inr (.inl rfl)
  · exact .inr (.inr (.inr (.inr ⟨rfl, rfl⟩)))
  · exact .inr (.inr (.inl rfl))
  · exact absurd hName (by decide)
  · exact absurd hName (by decide)
  · exact .inr (.inr (.inr (.inl rfl)))
  · exact absurd hName (by decide)

end Command

namespace Act

open Progress (Alike SameWorld Aligned)
open Script (Clear Returns)

variable {K : List Call → List Call → Prop} {ps : List Part} {inv : Invocation} {name : String}
  {α β : Type} {p p' : Progress} {registry : Registry} {stance : Stance}

/-- Jumping to a label, or to where a label was left from. -/
theorem jump_outcomes (hSpelling : Script.Respelling ps) (label : String) (subroutine : Bool)
    (hp : Aligned (Returns ps) ps p p') :
    Outcomes (SameWorld (Returns ps)) (Aligned (Returns ps) ps) (fun _ => True)
      (jump label subroutine (inv.within (Script.edition name ps .original)) p)
      (jump label subroutine (inv.within (Script.edition name ps .respelled)) p') := by
  unfold jump
  rw [invocation_bind, invocation_bind]
  dsimp only [Invocation.within]
  rcases hSpelling.label? name (labelName label) with ⟨hNone, hNone'⟩ | ⟨pos, pos', hSome, hSome', hPos⟩
  · rw [hNone, hNone']
    exact .ok True.intro hp
  · rw [hSome, hSome']
    refine .ok True.intro ⟨hp.world, hp.host, ?_, hPos⟩
    cases subroutine with
    | true => exact .cons ⟨rfl, hp.pos⟩ hp.calls
    | false => exact hp.calls

theorem comeBack_outcomes (hp : Aligned (Returns ps) ps p p') :
    Outcomes (SameWorld (Returns ps)) (Aligned (Returns ps) ps) (fun _ => True)
      (comeBack (inv.within (Script.edition name ps .original)) p)
      (comeBack (inv.within (Script.edition name ps .respelled)) p') := by
  have hCalls := hp.calls
  unfold comeBack
  rw [get_bind, get_bind]
  generalize p.calls = calls at hCalls ⊢
  generalize p'.calls = calls' at hCalls ⊢
  cases hCalls with
  | nil => exact .ok True.intro hp
  | cons hFirst hOthers => exact .ok True.intro ⟨hp.world, hp.host, hOthers, hFirst.2⟩

/-- A jump leads to the same part of both texts, if its label is no word with two spellings. -/
theorem runJump_tracks (hSpelling : Script.Respelling ps) (subroutine : Bool) :
    TracksBy (Returns ps) ps inv name (Command.runJump subroutine) (Functor.discard word) := by
  have hLabel : Tracks (Returns ps) ps inv name word := Tracks.word hSpelling
  refine ⟨hLabel.discard.onward, fun p p' hp hClear => ?_⟩
  have hWord := hLabel.agree p p' hp (left_discard word _ p ▸ hClear)
  refine hWord.act_bind fun label q q' _ hq => ?_
  refine (jump_outcomes hSpelling label subroutine hq).act_bind fun found r r' _ hr => ?_
  cases found with
  | true => exact .ok True.intro hr
  | false =>
      exact (Agree.logs (.diagnoseToken _ _ _) (.diagnoseToken _ _ _)).sameWorld.bind
        (fun _ => .pure _) r r' hr

theorem runReturn_outcomes (hp : Aligned (Returns ps) ps p p') :
    Outcomes (SameWorld (Returns ps)) (Aligned (Returns ps) ps) (fun _ => True)
      (Command.runReturn (inv.within (Script.edition name ps .original)) p)
      (Command.runReturn (inv.within (Script.edition name ps .respelled)) p') := by
  refine (comeBack_outcomes hp).act_bind fun found r r' _ hr => ?_
  cases found with
  | true => exact .ok True.intro hr
  | false => exact (Agree.logs (.error _) (.error _)).sameWorld.bind (fun _ => .pure _) r r' hr

/-- Passing over what is left of a line that was complained about. -/
theorem passOver_outcomes (hSpelling : Script.Respelling ps) {complain complain' : Act Unit}
    (hLogs : Logs complain) (hLogs' : Logs complain') (a : α) (hp : Aligned K ps p p') :
    Outcomes (SameWorld K) (Aligned K ps) (fun _ => True)
      ((do complain; discard skipLine; return a) (inv.within (Script.edition name ps .original)) p)
      ((do complain'; discard skipLine; return a) (inv.within (Script.edition name ps .respelled)) p') := by
  refine Outcomes.act_bind ((Agree.logs hLogs hLogs').sameWorld p p' hp) fun _ q q' _ hq => ?_
  obtain ⟨rest, rest', r, r', hRun, hRun', _, hr⟩ :=
    skipLine_outcomes inv name hSpelling hq
  refine Outcomes.act_bind (R := Aligned K ps) (Q := fun _ => True) ?_ fun _ t t' _ ht => .ok True.intro ht
  change Outcomes _ _ _ ((skipLine >>= fun _ => Pure.pure ()) _ q) ((skipLine >>= fun _ => Pure.pure ()) _ q')
  rw [bind_apply, bind_apply, hRun, hRun']
  exact .ok True.intro hr

/-- Whether the entity may give a command. -/
def allows (c : Command) (inv : Invocation) (p : Progress) : Bool :=
  c.requires.isEmpty || (p.session.world.entities.get? inv.entity).any fun e =>
    Capability.meet e.capabilities c.requires

theorem mayGive_eq (c : Command) (inv : Invocation) (p : Progress) :
    mayGive c inv p = .ok (allows c inv p) p := rfl

variable (inv name) in
/-- The same commands may be given in both spellings. -/
theorem allows_alike (c : Command) (hp : Aligned K ps p p') :
    allows c (inv.within (Script.edition name ps .respelled)) p' =
      allows c (inv.within (Script.edition name ps .original)) p := by
  have hBare (w : World) : ((w.bare.entities.get? inv.entity).any fun e =>
      Capability.meet e.capabilities c.requires) = (w.entities.get? inv.entity).any fun e =>
        Capability.meet e.capabilities c.requires := by
    rw [World.bare, EntityTable.get?_modifyAll]
    cases w.entities.get? inv.entity <;> rfl
  unfold allows
  dsimp only [Invocation.within]
  rw [← hBare p'.session.world, hp.world, hBare]

theorem obey_given {inv : Invocation} {c : Command} (hMay : allows c inv p = true) (word : String) :
    obey c word inv p =
      if inv.dry && !c.harmless then .ok (.finish .refuse) p else c.run inv p := by
  unfold obey
  rw [bind_apply, mayGive_eq, hMay]
  dsimp only
  rw [if_pos rfl, invocation_bind]
  split <;> rfl

theorem obey_denied {inv : Invocation} {c : Command} (hMay : allows c inv p = false)
    (word : String) : obey c word inv p = (do
      warnAt word ("command '" ++ word ++ "' cannot run on this entity")
      discard skipLine
      return .failed : Act Reply) inv p := by
  unfold obey
  rw [bind_apply, mayGive_eq, hMay]
  rfl

/-- Giving a command comes to the same, if what the command does comes to the same where it is done. -/
theorem obey_outcomes (hSpelling : Script.Respelling ps) {c : Command} (word word' : String)
    (hp : Aligned K ps p p')
    (hRun : allows c (inv.within (Script.edition name ps .original)) p = true →
      obey c word (inv.within (Script.edition name ps .original)) p =
        c.run (inv.within (Script.edition name ps .original)) p →
      Outcomes (SameWorld K) (Aligned K ps) (fun _ => True)
        (c.run (inv.within (Script.edition name ps .original)) p)
        (c.run (inv.within (Script.edition name ps .respelled)) p')) :
    Outcomes (SameWorld K) (Aligned K ps) (fun _ => True)
      (obey c word (inv.within (Script.edition name ps .original)) p)
      (obey c word' (inv.within (Script.edition name ps .respelled)) p') := by
  have hSame := allows_alike inv name c hp
  cases hMay : allows c (inv.within (Script.edition name ps .original)) p with
  | false =>
      rw [obey_denied hMay, obey_denied (hSame.trans hMay)]
      exact passOver_outcomes hSpelling (.diagnoseToken _ _ _) (.diagnoseToken _ _ _) _ hp
  | true =>
      have hRun := hRun hMay
      rw [obey_given hMay] at hRun ⊢
      rw [obey_given (hSame.trans hMay)]
      by_cases hDry : (inv.dry && !c.harmless) = true
      · simp only [Invocation.within, hDry, if_true]
        exact .ok True.intro hp
      · simp only [Invocation.within, hDry] at hRun ⊢
        exact hRun rfl

/-- What follows a reply. -/
theorem answer_keeps (hSpelling : Script.Respelling ps) (stance : Stance) (r : Reply) :
    Keeps K ps inv name (answer stance r) := by
  intro p p' hp
  cases r with
  | jumped =>
      have hDepth := hSpelling.blockDepth name hp.pos .respelled
      change Outcomes _ _ _
        (.ok (Turn.go ⟨false, .landed ((Script.edition name ps .original).blockDepth p.pos)⟩) p)
        (.ok (Turn.go ⟨false, .landed ((Script.edition name ps .respelled).blockDepth p'.pos)⟩) p')
      rw [show (Script.edition name ps .respelled).blockDepth p'.pos = _ from hDepth]
      exact .ok True.intro hp
  | _ => exact .ok True.intro hp

theorem behind?_isSome (lead : String) (cs : List Char) :
    (behind? lead cs).isSome = true ↔ lead.toList <+: cs := by
  unfold behind?
  split
  · rename_i h
    simpa using h
  · rename_i h
    simpa using h

/-- A closing brace of the event: the script goes on behind it in both spellings, or the dispatch ends. -/
theorem closeEvent_outcomes (hResumes : Script.Resumes ps name inv.suppressions)
    (hp : Aligned K ps p p') :
    Outcomes (SameWorld K) (Aligned K ps) (fun _ => True)
      (closeEvent stance (inv.within (Script.edition name ps .original)) p)
      (closeEvent stance (inv.within (Script.edition name ps .respelled)) p') := by
  have hSame : inv.suppressions.resumes name p'.pos = inv.suppressions.resumes name p.pos :=
    hResumes _ hp.pos
  refine Outcomes.act_ite (Eq.congr_left hSame) (fun _ => ?_) fun _ => ?_
  · exact (Agree.logs (.debug _) (.debug _)).sameWorld.bind (fun _ => .pure _) p p' hp
  · exact (Agree.warnAt _ _).sameWorld.bind (fun _ => .pure _) p p' hp

/-- What follows a word that is no command. -/
theorem passWord_outcomes (stance : Stance) (hSpelling : Script.Respelling ps)
    (hResumes : Script.Resumes ps name inv.suppressions) {free : Bool}
    {value : Edition → List Char} (hRead : Script.ReadAs free value) (hp : Aligned K ps p p') :
    Outcomes (SameWorld K) (Aligned K ps) (fun _ => True)
      (passWord stance (String.ofList (value .original)) (inv.within (Script.edition name ps .original)) p)
      (passWord stance (String.ofList (value .respelled)) (inv.within (Script.edition name ps .respelled))
        p') := by
  have hLabel : (behind? ">>" (value .respelled)).isSome = (behind? ">>" (value .original)).isSome := by
    rw [Bool.eq_iff_iff, behind?_isSome, behind?_isSome]
    exact hRead.leads_foreign (by decide) .respelled
  have hWord {k : List Char} (hk : k ∈ Script.foreign) :
      String.ofList (value .respelled) = String.ofList k ↔
        String.ofList (value .original) = String.ofList k := by
    rw [String.ofList_inj, String.ofList_inj]
    exact hRead.eq_foreign hk .respelled
  have hOpen := hWord (k := ['\x7b']) (by decide)
  have hClose := hWord (k := ['\x7d']) (by decide)
  have hOn := hWord (k := ['o', 'n']) (by decide)
  unfold passWord
  simp only [String.toList_ofList, hLabel]
  refine Outcomes.act_ite Iff.rfl (fun _ => passOver_outcomes hSpelling .pure .pure _ hp) fun _ => ?_
  refine Outcomes.act_ite hOpen (fun _ => .ok True.intro hp) fun _ => ?_
  refine Outcomes.act_ite hClose (fun _ => ?_) fun _ => ?_
  · exact Outcomes.act_ite Iff.rfl (fun _ => closeEvent_outcomes hResumes hp) fun _ => .ok True.intro hp
  refine Outcomes.act_ite (by simp [hOn]) (fun _ => ?_) fun _ => ?_
  · exact (Agree.logs (.diagnoseToken _ _ _) (.diagnoseToken _ _ _)).sameWorld.bind (fun _ => .pure _) p p' hp
  · exact passOver_outcomes hSpelling (.diagnoseToken _ _ _) (.diagnoseToken _ _ _) _ hp

/-- A word that names a timer is the same in both texts, unless it has a closing brace. -/
theorem timer_same {free : Bool} {value : Edition → List Char} (hRead : Script.ReadAs free value)
    {timer : List Char} (hTimer : behind? "timer" (value .original) = some timer)
    (hBrace : '\x7d' ∉ value .original) : value .respelled = value .original := by
  cases hRead with
  | same v => rfl
  | word _ hText =>
      refine absurd ?_ (hText.not_foreign (k := "timer".toList) (by decide) .original)
      rw [← behind?_isSome, hTimer]
      rfl
  | behind hBefore _ => exact absurd (List.mem_append_left _ hBefore) hBrace

/-- What is read as a word at the same part of both texts. -/
structure SameWord (ps : List Part) (word : Edition → Scan (List Char)) (place : Edition → Place) : Prop where
  abreast : Script.Abreast ps place
  read : ∀ e, Script.commandWord (place e).pos (place e).rest = word e

theorem SameWord.readAs {word : Edition → Scan (List Char)} {place : Edition → Place}
    (h : SameWord ps word place) (hSpelling : Script.Respelling ps) :
    ∃ free, Script.ReadAs free fun e => (word e).value := by
  have hRead := (h.abreast.commandWord hSpelling.words).1
  simpa only [h.read] using hRead

/-- A command comes to the same behind words that denote it. -/
theorem run_outcomes (hSpelling : Script.Respelling ps) {c : Command} (hCommand : c ∈ Command.builtins)
    {word : Edition → Scan (List Char)} {place : Edition → Place} (hWord : SameWord ps word place)
    (hName : Command.normalize (String.ofList (word .original).value) = Command.normalize c.name)
    (hPos : p.pos = (word .original).stop.pos) (hPos' : p'.pos = (word .respelled).stop.pos)
    (hp : Aligned (Returns ps) ps p p')
    (hClear : Clear ps p.pos (left (c.words (inv.within (Script.edition name ps .original)) p))) :
    Outcomes (SameWorld (Returns ps)) (Aligned (Returns ps) ps) (fun _ => True)
      (c.run (inv.within (Script.edition name ps .original)) p)
      (c.run (inv.within (Script.edition name ps .respelled)) p') := by
  by_cases hControl : c.name ∈ Command.controls
  · rcases Command.control_run hCommand hControl with hRun | hRun | hRun | hRun | ⟨hIf, hRun⟩
    · rw [hRun]
      exact .ok True.intro hp
    · rw [hRun]
      exact .ok True.intro hp
    · rw [hRun]
      exact runElse_keeps hSpelling p p' hp
    · rw [hRun]
      exact runReturn_outcomes hp
    · rw [hRun]
      have hNormal : Command.normalize "if" = "if" := by decide
      exact runIf_outcomes hSpelling hWord.abreast (by rw [hWord.read, hName, hIf, hNormal])
        (by rw [hWord.read, hPos]) (by rw [hWord.read, hPos']) hp.sameWorld
  by_cases hJump : c.name ∈ Command.jumps
  · rw [Command.words, if_neg hControl, if_pos hJump] at hClear
    rcases Command.jump_run hCommand hJump with hRun | hRun | hRun
    · rw [hRun]
      exact (runJump_tracks hSpelling false).agree p p' hp hClear
    · rw [hRun]
      exact (runJump_tracks hSpelling true).agree p p' hp hClear
    · rw [hRun]
      exact runReturn_outcomes hp
  · exact (TracksBy.builtins hSpelling hCommand hControl hJump).agree p p' hp hClear

theorem follow_command {c : Command} {word : String} (h : registry.find? word = some c) :
    follow registry stance word = (do answer stance (← obey c word)) := by
  unfold follow
  rw [h]

theorem follow_timer {word : String} (h : registry.find? word = none) {timer : List Char}
    (hTimer : behind? "timer" word.toList = some timer) : follow registry stance word = (do
      if (← invocation).dry then return .finish .refuse
      else answer stance (← Command.runTimer (String.ofList timer))) := by
  unfold follow
  rw [h, hTimer]

theorem follow_other {word : String} (h : registry.find? word = none)
    (hTimer : behind? "timer" word.toList = none) :
    follow registry stance word = passWord stance word := by
  unfold follow
  rw [h, hTimer]

/-- Setting up a timer comes to the same, if this passes over no word with two spellings. -/
theorem timer_outcomes (hSpelling : Script.Respelling ps) (timer : String) (hp : Aligned K ps p p')
    (hClear : Clear ps p.pos
      (left (Command.timerWords timer (inv.within (Script.edition name ps .original)) p))) :
    Outcomes (SameWorld K) (Aligned K ps) (fun _ => True)
      ((do answer stance (← Command.runTimer timer)) (inv.within (Script.edition name ps .original)) p)
      ((do answer stance (← Command.runTimer timer)) (inv.within (Script.edition name ps .respelled)) p') :=
  Outcomes.act_bind ((TracksBy.runTimer hSpelling timer).agree p p' hp hClear) fun reply q q' _ hq =>
    answer_keeps hSpelling stance reply q q' hq

/-- What follows a word reads no word with two spellings as something else than a command. -/
def Spares (registry : Registry) (ps : List Part) (word : String) (inv : Invocation) (p : Progress) :
    Prop :=
  match registry.find? word, behind? "timer" word.toList with
  | some c, _ => allows c inv p = true → Clear ps p.pos (left (c.words inv p))
  | none, some timer => '\x7d' ∉ word.toList ∧
      Clear ps p.pos (left (Command.timerWords (String.ofList timer) inv p))
  | none, none => True

instance (registry : Registry) (ps : List Part) (word : String) (inv : Invocation) (p : Progress) :
    Decidable (Spares registry ps word inv p) :=
  match hCommand : registry.find? word, hTimer : behind? "timer" word.toList with
  | some c, _ => decidable_of_iff (allows c inv p = true → Clear ps p.pos (left (c.words inv p)))
      (by simp only [Spares, hCommand])
  | none, some timer => decidable_of_iff ('\x7d' ∉ word.toList ∧
        Clear ps p.pos (left (Command.timerWords (String.ofList timer) inv p)))
      (by simp only [Spares, hCommand, hTimer])
  | none, none => .isTrue (by simp only [Spares, hCommand, hTimer])

/-- What follows a word comes to the same in both spellings. -/
theorem follow_outcomes (hSpelling : Script.Respelling ps) (hRegistry : registry.OfBuiltins)
    (hResumes : Script.Resumes ps name inv.suppressions) {word : Edition → Scan (List Char)}
    {place : Edition → Place} (hWord : SameWord ps word place)
    (hPos : p.pos = (word .original).stop.pos) (hPos' : p'.pos = (word .respelled).stop.pos)
    (hp : Aligned (Returns ps) ps p p')
    (hSpares : Spares registry ps (String.ofList (word .original).value)
      (inv.within (Script.edition name ps .original)) p) :
    Outcomes (SameWorld (Returns ps)) (Aligned (Returns ps) ps) (fun _ => True)
      (follow registry stance (String.ofList (word .original).value)
        (inv.within (Script.edition name ps .original)) p)
      (follow registry stance (String.ofList (word .respelled).value)
        (inv.within (Script.edition name ps .respelled)) p') := by
  obtain ⟨_, hRead⟩ := hWord.readAs hSpelling
  have hFind : registry.find? (String.ofList (word .respelled).value) =
      registry.find? (String.ofList (word .original).value) := by
    rw [Registry.find?, Registry.find?, hRead.normal]
  unfold Spares at hSpares
  cases hCommand : registry.find? (String.ofList (word .original).value) with
  | some c =>
      obtain ⟨hBuiltin, hName⟩ := hRegistry.find? hCommand
      rw [hCommand] at hSpares
      rw [follow_command hCommand, follow_command (hFind.trans hCommand)]
      refine Outcomes.act_bind (obey_outcomes hSpelling _ _ hp fun hMay _ => ?_)
        fun reply q q' _ hq => answer_keeps hSpelling stance reply q q' hq
      exact run_outcomes hSpelling hBuiltin hWord hName hPos hPos' hp (hSpares hMay)
  | none =>
      rw [hCommand, String.toList_ofList] at hSpares
      cases hTimer : behind? "timer" (word .original).value with
      | some timer =>
          rw [hTimer] at hSpares
          obtain ⟨hBrace, hClear⟩ := hSpares
          have hSame : (word .respelled).value = (word .original).value := timer_same hRead hTimer hBrace
          rw [hSame, follow_timer hCommand (by rw [String.toList_ofList, hTimer]), invocation_bind,
            invocation_bind]
          refine Outcomes.act_ite Iff.rfl (fun _ => .ok True.intro hp) fun _ => ?_
          exact timer_outcomes hSpelling _ hp hClear
      | none =>
          have hNone : behind? "timer" (word .respelled).value = none := by
            rw [← Option.not_isSome_iff_eq_none, behind?_isSome] at hTimer ⊢
            exact fun hLeads => hTimer
              ((hRead.leads_foreign (k := "timer".toList) (by decide) .respelled).mp hLeads)
          rw [follow_other hCommand (by rw [String.toList_ofList, hTimer]),
            follow_other (hFind.trans hCommand) (by rw [String.toList_ofList, hNone])]
          have hPassed := passWord_outcomes stance hSpelling hResumes hRead hp
          exact hPassed

/-- Reads the word that a turn begins with and logs it. -/
def hear (stance : Stance) : Act String := do
  let word ← command (!stance.line)
  announce word
  return word

/-- A turn comes to the same in both spellings, if what follows its word reads no word with two spellings
as something else than a command. -/
theorem turn_outcomes (hSpelling : Script.Respelling ps) (hRegistry : registry.OfBuiltins)
    (hResumes : Script.Resumes ps name inv.suppressions) (hp : Aligned (Returns ps) ps p p')
    (hSpares : ∀ word q, hear stance (inv.within (Script.edition name ps .original)) p = .ok word q →
      Spares registry ps word (inv.within (Script.edition name ps .original)) q) :
    Outcomes (SameWorld (Returns ps)) (Aligned (Returns ps) ps) (fun _ => True)
      (turn registry stance (inv.within (Script.edition name ps .original)) p)
      (turn registry stance (inv.within (Script.edition name ps .respelled)) p') := by
  cases hSpelling.commandAt name (!stance.line) hp.pos with
  | error hError =>
      rw [turn, bind_apply, bind_apply, command_fault p (hError .original),
        command_fault p' (hError .respelled)]
      exact .error hp.sameWorld
  | @ok place hPlace hOk =>
      obtain ⟨word, hWord⟩ : ∃ word, SameWord ps word place := ⟨_, hPlace, fun _ => rfl⟩
      obtain ⟨-, hStop⟩ := hPlace.commandWord hSpelling.words
      simp only [hWord.read] at hOk hStop
      obtain ⟨_, hRead⟩ := hWord.readAs hSpelling
      obtain ⟨log, hRun⟩ := command_ok inv p (hOk .original)
      obtain ⟨log', hRun'⟩ := command_ok inv p' (hOk .respelled)
      have hThere := hp.move log log' hStop.parallel
      rw [hear, bind_apply, hRun] at hSpares
      rw [turn, bind_apply, bind_apply, hRun, hRun']
      dsimp only at hSpares ⊢
      have hBlank : String.ofList (word .respelled).value = "" ↔
          String.ofList (word .original).value = "" := by
        simpa only [String.ofList_eq_empty_iff] using hRead.eq_nil .respelled
      refine Outcomes.act_ite hBlank (fun _ => ?_) fun _ => ?_
      · have hWarn (line : Bool) : Keeps (Returns ps) ps inv name (do
            unless line do warn "missing '\x7d' before end of script"
            return Turn.finish .accept) := by
          cases line with
          | true => exact .pure _
          | false => exact (Agree.warn _ _).sameWorld.bind fun _ => .pure _
        exact hWarn stance.line _ _ hThere
      · obtain ⟨more, hSaid⟩ := announce_logs (String.ofList (word .original).value)
          (inv.within (Script.edition name ps .original)) (p.read log (word .original).stop.pos)
        obtain ⟨more', hSaid'⟩ := announce_logs (String.ofList (word .respelled).value)
          (inv.within (Script.edition name ps .respelled)) (p'.read log' (word .respelled).stop.pos)
        rw [bind_apply, hSaid] at hSpares
        rw [bind_apply, bind_apply, hSaid, hSaid']
        refine follow_outcomes hSpelling hRegistry hResumes hWord rfl rfl ?_ (hSpares _ _ rfl)
        exact hThere.move more more' hStop.parallel

/-- The block of an event is opened in both spellings or in none. -/
theorem openEvent_keeps (hSpelling : Script.Respelling ps) : Keeps K ps inv name openEvent := by
  intro p p' hp
  rw [openEvent, bind_apply, bind_apply]
  cases hSpelling.commandAt name true hp.pos with
  | error hError =>
      rw [command_fault p (hError .original), command_fault p' (hError .respelled)]
      exact .error hp.sameWorld
  | ok hPlace hOk =>
      obtain ⟨⟨_, hRead⟩, hStop⟩ := hPlace.commandWord hSpelling.words
      obtain ⟨log, hRun⟩ := command_ok inv p (hOk .original)
      obtain ⟨log', hRun'⟩ := command_ok inv p' (hOk .respelled)
      rw [hRun, hRun']
      dsimp only
      have hThere := hp.move log log' hStop.parallel
      refine Outcomes.act_ite ?_ (fun _ => .ok True.intro hThere) fun _ => ?_
      · exact (String.ofList_inj.trans (hRead.eq_foreign (k := ['\x7b']) (by decide) .respelled)).trans
          String.ofList_inj.symm
      · exact (Agree.logs (.diagnoseToken _ _ _) (.diagnoseToken _ _ _)).sameWorld.bind
          (fun _ => .pure _) _ _ hThere

end Act

end EntityScript
