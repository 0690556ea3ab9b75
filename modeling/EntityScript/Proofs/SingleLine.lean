import EntityScript.Proofs.Blocks
import EntityScript.Proofs.ConfinedCommands

/-! A dispatch of a single line, a timer's or the console's. Each command word is looked for on the line
that the cursor is on, so the dispatch leaves its line where a command leaves the cursor behind it: an
argument was read there, which is reported, or a statement was passed over that ends there. -/
namespace EntityScript

/-- Where the statement begins that a command passes over whose word ends at a place. -/
def Command.bodyAt (name : String) (behind : Place) : Place :=
  if name = "if" then (Condition.read behind).2
  else if name = "random" then (Script.nextWord behind.pos behind.rest).stop
  else behind

namespace Script

variable {s : Script} {origin pos next : Nat}

/-- What a command passes over unread leads beyond its line. -/
inductive Strays (s : Script) (name : String) (behind : Place) : Prop where
  /-- The statement ends behind the line. -/
  | passed {after : Nat} {notes : List Note} (hName : name ∈ Command.branches)
      (hSkip : s.skipStatement (s.size + 1) (Command.bodyAt name behind).pos = .ok (after, notes))
      (hBeyond : s.lineStop behind.pos < after)
  /-- The statement ends on the line, and behind the line its `else` follows. -/
  | followed {after : Nat} {notes : List Note} {follower : Scan (List Char)} (hName : name = "if")
      (hSkip : s.skipStatement (s.size + 1) (Command.bodyAt name behind).pos = .ok (after, notes))
      (hWithin : after ≤ s.lineStop behind.pos) (hFollower : s.commandAt true after = .ok follower)
      (hElse : follower.value = "else".toList) (hBeyond : s.lineStop behind.pos < follower.stop.pos)

theorem OnLine.trans (h : s.OnLine origin pos) (hNext : s.OnLine pos next) : s.OnLine origin next :=
  ⟨hNext.1, hNext.2.trans h.2⟩

theorem OnLine.le (h : s.OnLine origin pos) : pos ≤ s.lineStop origin := h.2 ▸ h.1.le_lineStop

theorem OnLine.along {p q : Place} (hp : s.Holds p) (h : p.Along q) : s.OnLine p.pos q.pos :=
  ⟨(hp.reaches h.reaches).valid, hp.lineStop_along h⟩

/-- Reading on from a line stays on it or goes beyond its end. -/
theorem Onward.onLine_or_lt (h : s.Onward pos next) (hPos : s.Valid pos) :
    s.OnLine pos next ∨ s.lineStop pos < next := by
  rcases Nat.lt_or_ge (s.lineStop pos) next with hBeyond | hWithin
  · exact .inr hBeyond
  · have hEnd : s.lineStop pos ≤ s.size := hPos.lineEnd_holds.valid.le_size
    have hSize := hPos.le_size
    have hLe := h.le
    have hNext : s.Valid next := (h.placed (.inl hPos)).resolve_right fun hOut => by omega
    exact .inl ⟨hNext, (hPos.lineStop_eq_iff hNext (by omega)).mpr hWithin⟩

end Script

namespace Act

variable {inv : Invocation} {start p q : Progress} {excuse : Prop}

/-- Passing over a statement ends on the line, unless there is an excuse for what it leads beyond. -/
theorem skipStatement_within (hp : Within inv start excuse p)
    (hExcuse : ∀ after notes,
      inv.script.skipStatement (inv.script.size + 1) p.pos = .ok (after, notes) →
      inv.script.lineStop start.pos < after → excuse)
    (hRun : skipStatement inv p = .ok () q) : Within inv start excuse q ∧ ∃ notes,
      inv.script.skipStatement (inv.script.size + 1) p.pos = .ok (q.pos, notes) := by
  have hGrown := ((serves_grown inv p.session.log).skipStatement.kept (.refl _) hRun).2
  cases hSkip : inv.script.skipStatement (inv.script.size + 1) p.pos with
  | error f =>
      rw [show skipStatement inv p = _ from @skipStatement_fault inv _ p _ hSkip] at hRun
      cases hRun
  | ok passed =>
      obtain ⟨after, notes⟩ := passed
      obtain ⟨log, hOk⟩ := @skipStatement_ok inv _ p _ _ hSkip
      cases (show skipStatement inv p = _ from hOk).symm.trans hRun
      obtain ⟨more, hMore⟩ := hGrown
      refine ⟨hp.next rfl ⟨more, hMore, fun hLine => ?_⟩, notes, rfl⟩
      rcases (Script.skipStatement_onward hSkip).onLine_or_lt hLine.1 with hOn | hBeyond
      · exact .inl (hLine.trans hOn)
      · exact .inr (.inr (hExcuse _ _ hSkip (hLine.2 ▸ hBeyond)))

/-- Looking for an `else` ends on the line, unless there is an excuse for the one that is found. -/
theorem consume_within (hp : Within inv start excuse p)
    (hExcuse : ∀ follower, inv.script.OnLine start.pos p.pos →
      inv.script.commandAt true p.pos = .ok follower → follower.value = "else".toList →
      inv.script.lineStop start.pos < follower.stop.pos → excuse)
    {found : Bool} (hRun : consume "else" inv p = .ok found q) : Within inv start excuse q := by
  have hGrown := (((serves_grown inv p.session.log).consume "else").kept (.refl _) hRun).2
  cases hFollower : inv.script.commandAt true p.pos with
  | error f =>
      have hFault : command true inv p = _ := @command_fault inv _ p _ _ hFollower
      rw [consume, get_bind, bind_apply, hFault] at hRun
      cases hRun
  | ok follower =>
      obtain ⟨log, hOk⟩ := consume_ok hFollower "else".toList
      cases hOk.symm.trans hRun
      obtain ⟨more, hMore⟩ := hGrown
      refine hp.next rfl ⟨more, hMore, fun hLine => ?_⟩
      by_cases hElse : follower.value = "else".toList
      · simp only [Progress.read, if_pos hElse]
        rcases (Script.commandAt_onward hFollower).onLine_or_lt hLine.1 with hOn | hBeyond
        · exact .inl (hLine.trans hOn)
        · exact .inr (.inr (hExcuse _ hLine hFollower hElse (hLine.2 ▸ hBeyond)))
      · simp only [Progress.read, if_neg hElse]
        exact .inl hLine

/-- A condition ends on its line. -/
theorem condition_within {r : Option Bool} (hp : Within inv start excuse p)
    (hRun : condition inv p = .ok r q) : Within inv start excuse q := by
  obtain ⟨more, hMore⟩ := ((serves_grown inv p.session.log).condition.kept (.refl _) hRun).2
  have hCalls : q.calls = p.calls := by
    have hEnds := @Steady.condition inv _ p (Advance.refl inv p).onward
    rw [Ends, hRun] at hEnds
    exact hEnds.1.calls
  refine hp.next hCalls ⟨more, hMore, fun hLine => .inl (hLine.trans ?_)⟩
  rw [pos_of_condition hRun, placeAt_eq hLine.1.holds]
  exact .along hLine.1.holds (Condition.read_along _)

/-- Behind the number the cursor is behind the word that was read. -/
theorem pos_of_float {x : Float} (hRun : float inv p = .ok x q) :
    q.pos = (Script.nextWord p.pos (inv.script.rest p.pos)).stop.pos := by
  obtain ⟨log, hWord⟩ := rawWord_eq inv p
  have hNames : inv.script.Writes (String.ofList (Script.nextWord p.pos (inv.script.rest p.pos)).value) :=
    .argument p.pos (inv.script.rest_suffix p.pos)
  rw [float, bind_apply, word, bind_apply, hWord] at hRun
  dsimp only at hRun
  split at hRun
  · rename_i name r hExpand
    have hName : inv.script.Names name := .expansion hNames hExpand
    rw [(Steady.stays (fun _ => Steady.readFloat hName) hRun).1,
      (Steady.stays (fun _ => Steady.expand hNames) hExpand).1]
    rfl
  · cases hRun

end Act

namespace Command

open Act

variable {inv : Invocation} {start p q : Progress} {excuse : Prop} {r : Reply}

/-- The body of a condition that does not hold, and the `else` behind it. -/
theorem skipBody_within (hp : Within inv start excuse p)
    (hBody : ∀ after notes,
      inv.script.skipStatement (inv.script.size + 1) p.pos = .ok (after, notes) →
      inv.script.lineStop start.pos < after → excuse)
    (hElse : ∀ after notes follower,
      inv.script.skipStatement (inv.script.size + 1) p.pos = .ok (after, notes) →
      after ≤ inv.script.lineStop start.pos → inv.script.commandAt true after = .ok follower →
      follower.value = "else".toList → inv.script.lineStop start.pos < follower.stop.pos → excuse)
    (hRun : skipBody inv p = .ok () q) : Within inv start excuse q := by
  rw [skipBody, bind_apply] at hRun
  split at hRun
  · rename_i t hSkip
    obtain ⟨ht, notes, hPassed⟩ := skipStatement_within hp hBody hSkip
    change ((consume "else") >>= fun _ => Pure.pure ()) inv t = _ at hRun
    rw [bind_apply] at hRun
    split at hRun
    · rename_i hConsume
      cases hRun
      exact consume_within ht (fun follower hLine => hElse _ _ follower hPassed hLine.le) hConsume
    · cases hRun
  · cases hRun

theorem runIf_within (hp : Within inv start excuse p) (hLine : inv.script.OnLine start.pos p.pos)
    (hExcuse : inv.script.Strays "if" ⟨p.pos, inv.script.rest p.pos⟩ → excuse)
    (hRun : runIf inv p = .ok r q) : Within inv start excuse q := by
  rw [runIf, bind_apply] at hRun
  split at hRun
  · rename_i held c hCondition
    have hc := condition_within hp hCondition
    have hBehind : c.pos = (bodyAt "if" ⟨p.pos, inv.script.rest p.pos⟩).pos := by
      rw [pos_of_condition hCondition, placeAt_eq hLine.1.holds]
      rfl
    have hPassOver {reply : Reply} (h : (skipBody >>= fun _ => Pure.pure reply : Act Reply) inv c =
        .ok r q) : Within inv start excuse q := by
      rw [bind_apply] at h
      split at h
      · rename_i hBody
        cases h
        refine skipBody_within hc (fun after notes hSkip hBeyond => ?_)
          (fun after notes follower hSkip hWithin hFollower hElse hBeyond => ?_) hBody
        · exact hExcuse (.passed (by simp [branches]) (hBehind ▸ hSkip) (hLine.2 ▸ hBeyond))
        · exact hExcuse (.followed rfl (hBehind ▸ hSkip) (hLine.2 ▸ hWithin) hFollower hElse
            (hLine.2 ▸ hBeyond))
      · cases h
    cases held with
    | none => exact hPassOver hRun
    | some value =>
        cases value with
        | false => exact hPassOver hRun
        | true =>
            cases hRun
            exact hc
  · cases hRun

theorem runElse_within (hp : Within inv start excuse p) (hLine : inv.script.OnLine start.pos p.pos)
    (hExcuse : inv.script.Strays "else" ⟨p.pos, inv.script.rest p.pos⟩ → excuse)
    (hRun : runElse inv p = .ok r q) : Within inv start excuse q := by
  rw [runElse, bind_apply] at hRun
  split at hRun
  · rename_i hSkip
    cases hRun
    refine (skipStatement_within hp (fun after notes hPassed hBeyond => ?_) hSkip).1
    exact hExcuse (.passed (by simp [branches]) hPassed (hLine.2 ▸ hBeyond))
  · cases hRun

theorem runRandom_within (hp : Within inv start excuse p)
    (hLine : inv.script.OnLine start.pos p.pos)
    (hExcuse : inv.script.Strays "random" ⟨p.pos, inv.script.rest p.pos⟩ → excuse)
    (hRun : runRandom inv p = .ok r q) : Within inv start excuse q := by
  have hFinite : (100 : Float).isFinite = true := by decide
  have hSteady (here : Progress) : Act.Steady inv here (· = here.pos) (fun _ => True) (draw 100) :=
    Steady.draw fun hNone => absurd hNone.2 (by simp [hFinite])
  have hDraw : Act.Confined inv start excuse (fun _ => True) (draw 100) :=
    .still hSteady fun log => (serves_grown inv log).draw fun hRel _ hDraw =>
      (serves_grown inv log).deed hRel (.chance hDraw)
  rw [runRandom, bind_apply] at hRun
  split at hRun
  · rename_i chance t hFloat
    obtain ⟨ht, _⟩ := Act.Confined.float p chance t hp hFloat
    rw [bind_apply] at hRun
    split at hRun
    · rename_i drawn u hDrawn
      obtain ⟨hu, _⟩ := hDraw t drawn u ht hDrawn
      have hBehind : u.pos = (bodyAt "random" ⟨p.pos, inv.script.rest p.pos⟩).pos := by
        rw [(Steady.stays hSteady hDrawn).1, pos_of_float hFloat]
        rfl
      dsimp only at hRun
      split at hRun
      · rw [bind_apply] at hRun
        split at hRun
        · rename_i hSkip
          cases hRun
          refine (skipStatement_within hu (fun after notes hPassed hBeyond => ?_) hSkip).1
          exact hExcuse (.passed (by simp [branches]) (hBehind ▸ hPassed) (hLine.2 ▸ hBeyond))
        · cases hRun
      · cases hRun
        exact hu
    · cases hRun
  · cases hRun

theorem branch_run {c : Command} (h : c ∈ builtins) (hName : c.name ∈ branches) :
    (c.name = "if" ∧ c.run = runIf) ∨ (c.name = "else" ∧ c.run = runElse) ∨
      c.name = "random" ∧ c.run = runRandom := by
  have hFlow := mem_flow branches (by decide) h hName
  simp only [flow, List.mem_cons, List.not_mem_nil, or_false] at hFlow
  rcases hFlow with rfl | rfl | rfl | rfl | rfl | rfl | rfl | rfl
  · exact absurd hName (by decide)
  · exact absurd hName (by decide)
  · exact .inl ⟨rfl, rfl⟩
  · exact .inr (.inl ⟨rfl, rfl⟩)
  · exact absurd hName (by decide)
  · exact absurd hName (by decide)
  · exact absurd hName (by decide)
  · exact .inr (.inr ⟨rfl, rfl⟩)

/-- A command that does not jump stays on its line or is reported, unless what it passes over leads
beyond the line. -/
theorem run_within {c : Command} (h : c ∈ builtins) (hJump : c.name ∉ jumps)
    (hp : Within inv start excuse p) (hLine : inv.script.OnLine start.pos p.pos)
    (hExcuse : inv.script.Strays c.name ⟨p.pos, inv.script.rest p.pos⟩ → excuse)
    (hRun : c.run inv p = .ok r q) : Within inv start excuse q := by
  by_cases hBranch : c.name ∈ branches
  · rcases branch_run h hBranch with ⟨hName, hIs⟩ | ⟨hName, hIs⟩ | ⟨hName, hIs⟩
    · exact runIf_within hp hLine (hName ▸ hExcuse) (hIs ▸ hRun)
    · exact runElse_within hp hLine (hName ▸ hExcuse) (hIs ▸ hRun)
    · exact runRandom_within hp hLine (hName ▸ hExcuse) (hIs ▸ hRun)
  · exact (builtins_confined h hBranch hJump inv start excuse p r q hp hRun).1

end Command

namespace Act

variable {inv : Invocation} {start p q : Progress} {excuse : Prop} {stance : Stance}
  {registry : Registry} {word : String}

theorem passWord_confined (stance : Stance) (word : String) :
    Act.Confined inv start excuse (fun _ => True) (passWord stance word) := by
  unfold passWord
  split
  · exact Confined.skipLine.map.andThen fun _ => .pure True.intro
  split
  · exact .pure True.intro
  split
  · split
    · refine .invocation (.here fun p => ?_)
      split
      · exact (Confined.debug _).andThen fun _ => .pure True.intro
      · exact (Confined.token _ _ _).andThen fun _ => .pure True.intro
    · exact .pure True.intro
  split
  · exact (Confined.token _ _ _).andThen fun _ => .pure True.intro
  · exact (Confined.token _ _ _).andThen fun _ => Confined.skipLine.map.andThen fun _ =>
      .pure True.intro

theorem answer_confined (stance : Stance) (r : Reply) :
    Act.Confined inv start excuse (fun _ => True) (answer stance r) := by
  cases r with
  | jumped => exact .invocation (.here fun p => .pure True.intro)
  | _ => exact .pure True.intro

/-- The reply of a command leaves the cursor where the command left it. -/
theorem answer_within {act : Act Reply} {turn : Turn}
    (hAct : ∀ r t, act inv p = .ok r t → Within inv start excuse t)
    (hRun : (act >>= answer stance) inv p = .ok turn q) : Within inv start excuse q := by
  rw [bind_apply] at hRun
  split at hRun
  · rename_i r t hReply
    exact (answer_confined stance r t turn q (hAct r t hReply) hRun).1
  · cases hRun

theorem obey_within {c : Command} {r : Reply} (hp : Within inv start excuse p)
    (hCommand : ∀ r q, c.run inv p = .ok r q → Within inv start excuse q)
    (hRun : obey c word inv p = .ok r q) : Within inv start excuse q := by
  have hAllowed : mayGive c inv p = .ok (c.requires.isEmpty ||
    (p.session.world.entities.get? inv.entity).any fun e =>
      Capability.meet e.capabilities c.requires) p := rfl
  rw [obey, bind_apply, hAllowed] at hRun
  dsimp only at hRun
  split at hRun
  · rw [invocation_bind] at hRun
    split at hRun
    · cases hRun
      exact hp
    · exact hCommand r q hRun
  · have hPassed : Act.Confined inv start excuse (fun _ => True) (do
        warnAt word ("command '" ++ word ++ "' cannot run on this entity")
        discard skipLine
        return Reply.failed) :=
      (Act.Confined.token _ _ _).andThen fun _ => (Act.Confined.skipLine.map).andThen fun _ =>
        .pure True.intro
    exact (hPassed p r q hp hRun).1

/-- What follows a word that denotes no jump. -/
theorem follow_within {turn : Turn} (hRegistry : registry.OfBuiltins)
    (hJump : ∀ c, registry.find? word = some c → c.name ∉ Command.jumps)
    (hp : Within inv start excuse p) (hLine : inv.script.OnLine start.pos p.pos)
    (hExcuse : ∀ c, registry.find? word = some c →
      inv.script.Strays c.name ⟨p.pos, inv.script.rest p.pos⟩ → excuse)
    (hRun : follow registry stance word inv p = .ok turn q) : Within inv start excuse q := by
  unfold follow at hRun
  cases hCommand : registry.find? word with
  | some c =>
      rw [hCommand] at hRun
      refine answer_within (fun r t hReply => obey_within hp (fun r q => ?_) hReply) hRun
      exact Command.run_within (hRegistry.find? hCommand).1 (hJump c hCommand) hp hLine
        (hExcuse c hCommand)
  | none =>
      cases hTimer : behind? "timer" word.toList with
      | some name =>
          rw [hCommand, hTimer] at hRun
          dsimp only at hRun
          rw [invocation_bind] at hRun
          split at hRun
          · cases hRun
            exact hp
          · refine answer_within (fun r t hReply => ?_) hRun
            exact (Command.runTimer_confined _ inv start excuse p r t hp hReply).1
      | none =>
          rw [hCommand, hTimer] at hRun
          exact (passWord_confined stance word p turn q hp hRun).1

/-- A turn on a single line that does not jump ends on the line, or it was reported to read on beyond it,
or the command passed over text that leads beyond it. -/
theorem turn_within {turn : Turn} (hRegistry : registry.OfBuiltins) (hLine : stance.line = true)
    (hJump : ∀ scan c, inv.script.commandAt false p.pos = .ok scan →
      registry.find? (String.ofList scan.value) = some c → c.name ∉ Command.jumps)
    (hRun : Act.turn registry stance inv p = .ok turn q) :
    Within inv p (∃ scan c, inv.script.commandAt false p.pos = .ok scan ∧
      registry.find? (String.ofList scan.value) = some c ∧
      inv.script.Strays c.name scan.stop) q := by
  have hTwin := serves_grown inv p.session.log
  rw [Act.turn, hLine, bind_apply] at hRun
  rcases command_cases false inv p with ⟨scan, log, hScan, hCommand⟩ | ⟨hFault, _⟩
  · obtain ⟨hValid, hStop⟩ := Script.commandAt_holds hScan
    have hAlong : Place.Along ⟨p.pos, inv.script.rest p.pos⟩ scan.stop := by
      rw [Script.commandAt_eq hScan]
      exact Place.command_along ⟨p.pos, inv.script.rest p.pos⟩
    have hBehind : inv.script.OnLine p.pos scan.stop.pos := .along hValid.holds hAlong
    -- Reading the word and announcing it log, and leave the cursor behind it.
    have hHere {excuse : Prop} {log : Array LogLine}
        (hLog : ({ p.session with log } : Session).Grown p.session.log) :
        Within inv p excuse (p.read log scan.stop.pos) := by
      obtain ⟨more, hMore⟩ := hLog
      exact (Within.refl hValid).next rfl ⟨more, hMore, fun _ => .inl hBehind⟩
    have hGrown := ((hTwin.command false).kept (.refl _) hCommand).2
    rw [Bool.not_true, hCommand] at hRun
    dsimp only at hRun
    split at hRun
    · cases hRun
      exact hHere hGrown
    · rw [bind_apply] at hRun
      obtain ⟨log', hAnnounce⟩ := announce_logs (String.ofList scan.value) inv
        (p.read log scan.stop.pos)
      rw [hAnnounce] at hRun
      have hAnnounced := ((announce_twin hTwin.toSees _).kept hGrown hAnnounce).2
      refine follow_within hRegistry (fun c => hJump scan c hScan) (hHere hAnnounced) hBehind
        (fun c hFound hStrays => ⟨scan, c, hScan, hFound, ?_⟩) hRun
      have hRest : inv.script.rest scan.stop.pos = scan.stop.rest := hStop.rest_eq
      simp only [Progress.read, hRest] at hStrays
      exact hStrays
  · rw [Bool.not_true, hFault] at hRun
    cases hRun

end Act

/-- The next word of a frame denotes no jump. -/
def Frame.jumpless (registry : Registry) (f : Frame) : Bool :=
  f.word?.all fun w =>
    (registry.find? (String.ofList w.value)).all fun c => !Command.jumps.contains c.name

namespace Rules

variable {rules : Rules} {x y : Frame × Session} {origin : Nat}

/-- A step without a jump. -/
def JumplessStep (rules : Rules) (x y : Frame × Session) : Prop :=
  rules.Step x y ∧ x.1.jumpless rules.registry = true

/-- A step that leaves the line of an offset. An argument was read behind the line, which its log reports,
or the command passed over text that leads beyond the line. -/
structure Overruns (rules : Rules) (origin : Nat) (x y : Frame × Session) : Prop where
  step : rules.JumplessStep x y
  onLine : x.1.invocation.script.OnLine origin x.1.pos
  beyond : x.1.invocation.script.lineStop origin < y.1.pos
  cause : (∃ added, y.2.log = x.2.log ++ added ∧
      x.1.invocation.Crossed ⟨x.2, x.1.pos, x.1.calls⟩ added) ∨
    ∃ scan c, x.1.word? = some scan ∧ rules.registry.find? (String.ofList scan.value) = some c ∧
      x.1.invocation.script.Strays c.name scan.stop

theorem deliver_grown (hRegistry : rules.registry.OfBuiltins) {fuel : Nat} {d : Delivery}
    {s t : Session} {v : Verdict} (h : rules.deliver fuel d s = .ok v t) : t.Grown s.log := by
  have hStirs := deliver_stirs hRegistry fuel d s
  rw [Action.state, h] at hStirs
  exact hStirs.keeps (fun hGrown hStir => hGrown.trans hStir.grown) (.refl s)

/-- A pass only adds to the log that its turn left. -/
theorem pass_grown (hRegistry : rules.registry.OfBuiltins) {fuel : Nat} {f g : Frame} {s t : Session}
    {turn : Turn} {q : Progress} (h : rules.pass fuel f s = .ok (.inr g) t)
    (hTurn : Act.turn rules.registry f.stance f.invocation ⟨s, f.pos, f.calls⟩ = .ok turn q) :
    t.Grown q.session.log := by
  have hPerform : f.perform (Act.turn rules.registry f.stance) s =
      .ok (turn, { f with pos := q.pos, calls := q.calls }) q.session := by
    rw [Frame.perform, hTurn]
  rw [pass_eq, passWith, Action.bind_apply, hPerform] at h
  cases turn with
  | finish v => cases h
  | go stance =>
      obtain ⟨_, rfl⟩ := goOn_ok h
      exact .refl _
  | send e stance =>
      dsimp only at h
      rw [Action.bind_apply] at h
      split at h
      · rename_i hDiscard
        obtain ⟨_, rfl⟩ := goOn_ok h
        obtain ⟨v, hDeliver⟩ := Action.discard_ok.mp hDiscard
        exact deliver_grown hRegistry hDeliver
      · cases h

namespace JumplessStep

/-- The word that a jumpless step reads. -/
theorem word (hRegistry : rules.registry.OfBuiltins) (h : rules.JumplessStep x y) :
    ∃ scan, x.1.word? = some scan ∧
      x.1.invocation.script.commandAt (!x.1.stance.line) x.1.pos = .ok scan ∧
      (∀ c, rules.registry.find? (String.ofList scan.value) = some c → c.name ∉ Command.jumps) ∧
      y.1.invocation = x.1.invocation ∧
      x.1.Moved rules.registry (String.ofList scan.value) scan.stop.pos y.1 := by
  obtain ⟨scan, hScan, hInvocation, hMoved⟩ := h.1.moved hRegistry
  have hWord : x.1.word? = some scan := by rw [Frame.word?, hScan]; rfl
  have hJumpless := h.2
  rw [Frame.jumpless, hWord] at hJumpless
  refine ⟨scan, hWord, hScan, fun c hCommand => ?_, hInvocation, hMoved⟩
  rw [Option.all_some, hCommand, Option.all_some] at hJumpless
  simpa using hJumpless

/-- A jumpless step reads on, on the line if the dispatch was on a line. -/
theorem onward (hRegistry : rules.registry.OfBuiltins) (h : rules.JumplessStep x y) :
    y.1.invocation = x.1.invocation ∧ y.1.stance.line = x.1.stance.line ∧
      x.1.invocation.script.Valid x.1.pos ∧ x.1.invocation.script.Onward x.1.pos y.1.pos := by
  obtain ⟨scan, _, hScan, hJumpless, hInvocation, hMoved⟩ := h.word hRegistry
  have hOn := Script.commandAt_onward hScan
  refine ⟨hInvocation, ?_⟩
  have hValid := (Script.commandAt_holds hScan).1
  cases hMoved with
  | passed _ hFurther _ hStance => exact ⟨by rw [hStance], hValid, hOn.trans hFurther⟩
  | opened _ hPos _ hStance => exact ⟨by rw [hStance], hValid, hPos ▸ hOn⟩
  | closed _ _ hPos _ hStance => exact ⟨by rw [hStance], hValid, hPos ▸ hOn⟩
  | resumed _ _ _ hPos _ hStance => exact ⟨by rw [hStance], hValid, hPos ▸ hOn⟩
  | leapt c hCommand hName => exact absurd hName (hJumpless c hCommand)

/-- On a single line a jumpless step stays on the line, unless it overruns it. -/
theorem onLine_or_overruns (hRegistry : rules.registry.OfBuiltins) (h : rules.JumplessStep x y)
    (hLine : x.1.stance.line = true) (hHere : x.1.invocation.script.OnLine origin x.1.pos) :
    x.1.invocation.script.OnLine origin y.1.pos ∨ rules.Overruns origin x y := by
  obtain ⟨_, _, hValid, hOn⟩ := h.onward hRegistry
  rcases hOn.onLine_or_lt hValid with hStays | hBeyond
  · exact .inl (hHere.trans hStays)
  obtain ⟨scan, hWord, hScan, hJumpless, _, _⟩ := h.word hRegistry
  have hStep := h
  obtain ⟨⟨fuel, hPass⟩, _⟩ := h
  obtain ⟨turn, q, hTurn, _, hPos, _, _⟩ := passWith_inr hPass
  obtain ⟨more, hMore⟩ := pass_grown hRegistry hPass hTurn
  rw [hLine, Bool.not_true] at hScan
  have hWithin := Act.turn_within hRegistry hLine (fun scan' c hScan' hFound => by
    obtain rfl := Except.ok.inj (hScan.symm.trans hScan')
    exact hJumpless c hFound) hTurn
  obtain ⟨added, hAdded, hLeft⟩ := hWithin.log
  refine .inr ⟨hStep, hHere, hHere.2 ▸ hBeyond, ?_⟩
  rcases hLeft with hOnLine | ⟨ident, hReport⟩ | ⟨scan', c, hScan', hFound, hStrays⟩
  · exact absurd (hPos ▸ hOnLine.le) (Nat.not_le.mpr hBeyond)
  · refine .inl ⟨added ++ more, ?_, ident, Array.mem_append_left _ hReport⟩
    rw [hMore, hAdded, Array.append_assoc]
  · obtain rfl := Except.ok.inj (hScan.symm.trans hScan')
    exact .inr ⟨scan, c, hWord, hFound, hStrays⟩

end JumplessStep

/-- The steps so far stayed on the line of the start, or one of them overran it. -/
theorem onLine_or_overran (hRegistry : rules.registry.OfBuiltins) {start : Frame × Session}
    (hLine : start.1.stance.line = true)
    (hValid : start.1.invocation.script.Valid start.1.pos) (h : Leads rules.JumplessStep start x) :
    x.1.invocation = start.1.invocation ∧ x.1.stance.line = true ∧
      (start.1.invocation.script.OnLine start.1.pos x.1.pos ∨
        ∃ a b, Leads rules.JumplessStep start a ∧ rules.Overruns start.1.pos a b ∧
          Leads rules.JumplessStep b x) := by
  induction h with
  | refl => exact ⟨rfl, hLine, .inl ⟨hValid, rfl⟩⟩
  | @tail x y hPrior hLast ih =>
      obtain ⟨hSame, hStill, hSoFar⟩ := ih
      obtain ⟨hInvocation, hStance, _, _⟩ := hLast.onward hRegistry
      refine ⟨hInvocation.trans hSame, hStance.trans hStill, ?_⟩
      rcases hSoFar with hHere | ⟨a, b, hBefore, hOverruns, hAfter⟩
      · rw [← hSame] at hHere ⊢
        refine (hLast.onLine_or_overruns hRegistry hStill hHere).imp_right fun hOverruns => ?_
        exact ⟨x, y, hPrior, hOverruns, .refl⟩
      · exact .inr ⟨a, b, hBefore, hOverruns, hAfter.tail hLast⟩

/-- Jumpless steps do not go back. -/
theorem pos_le (hRegistry : rules.registry.OfBuiltins) (h : Leads rules.JumplessStep x y) :
    y.1.invocation = x.1.invocation ∧ x.1.pos ≤ y.1.pos := by
  induction h with
  | refl => exact ⟨rfl, Nat.le_refl _⟩
  | tail _ hLast ih =>
      obtain ⟨hInvocation, _, hValid, hOn⟩ := hLast.onward hRegistry
      have hSize := hValid.le_size
      have hLe := hOn.le
      exact ⟨hInvocation.trans ih.1, by omega⟩

/-- On a single line, without jumps, a command word stands on the line that the dispatch began on exactly
if no step before it overran that line. -/
theorem wordStart_onLine_iff (hRegistry : rules.registry.OfBuiltins) {start f : Frame} {s t : Session}
    {scan : Scan (List Char)} (hLine : start.stance.line = true)
    (hRun : Leads rules.JumplessStep (start, s) (f, t)) (hWord : f.word? = some scan) :
    start.invocation.script.OnLine start.pos f.wordStart ↔
      ¬ ∃ x y, Leads rules.JumplessStep (start, s) x ∧ rules.Overruns start.pos x y ∧
        Leads rules.JumplessStep y (f, t) := by
  have hScan : f.invocation.script.commandAt (!f.stance.line) f.pos = .ok scan := by
    unfold Frame.word? at hWord
    cases hRead : f.invocation.script.commandAt (!f.stance.line) f.pos with
    | ok scan' => rw [hRead] at hWord; exact congrArg _ (Option.some.inj hWord)
    | error e => rw [hRead] at hWord; cases hWord
  have hPos := (Script.commandAt_holds hScan).1
  have hValid : start.invocation.script.Valid start.pos := by
    rcases hRun.cases_head with hSame | ⟨y, hFirst, _⟩
    · cases hSame
      exact hPos
    · exact (hFirst.onward hRegistry).2.2.1
  obtain ⟨hSame, hStill, hSoFar⟩ := onLine_or_overran hRegistry hLine hValid hRun
  simp only at hSame hStill hSoFar
  unfold Frame.wordStart
  rw [hStill, Bool.not_true, hSame]
  rw [hSame] at hPos
  constructor
  · rintro hOn ⟨x, y, hBefore, hOverruns, hAfter⟩
    have hBeyond := hOverruns.beyond
    rw [(pos_le hRegistry hBefore).1] at hBeyond
    have hFurther := (pos_le hRegistry hAfter).2
    have hGaps := (Script.skipGaps_reaches false false f.pos (start.invocation.script.rest f.pos)).le
    have hEnd := hOn.le
    simp only at hBeyond hFurther hGaps
    omega
  · intro hNone
    exact (hSoFar.resolve_right hNone).trans (.along hPos.holds (Script.skipGaps_along _ _ _))

/-- A line whose condition does not hold, with an `else` on the next line. -/
def strayScript : Script := .ofNormal "console" "if (1 == 2) set #x 1\nelse set #z 1"

/-- The dispatch of that line. -/
def strayLine : Frame × Session :=
  (⟨{ script := strayScript, entity := ⟨0⟩, event := .line }, 0, [], ⟨true, .event 1⟩⟩,
    (initAt strayScript 0).2)

set_option maxRecDepth 100000 in
/-- The command behind the `else` is given, and no warning tells of it. -/
theorem wordStart_onLine_iff_stray : ∃ f t scan, Leads plain.JumplessStep strayLine (f, t) ∧
    f.word? = some scan ∧ scan.value = "set".toList ∧
    (∀ line ∈ t.log, line.level ≠ .warn) ∧ ¬ strayScript.OnLine strayLine.1.pos f.wordStart ∧
    ∃ x y, Leads plain.JumplessStep strayLine x ∧ plain.Overruns strayLine.1.pos x y ∧
      Leads plain.JumplessStep y (f, t) := by
  have hRun : ((plain.walk? (fun f _ => f.jumpless plain.registry) 1 strayLine).map fun y =>
      (y.1.word?.map Scan.value, y.2.log.all (fun line => decide (line.level ≠ .warn)),
        decide (strayScript.lineStop y.1.wordStart = strayScript.lineStop 0))) =
      some (some "set".toList, true, false) := by decide +kernel
  obtain ⟨⟨f, t⟩, hWalk, hFound⟩ := Option.map_eq_some_iff.mp hRun
  simp only [Prod.mk.injEq, Option.map_eq_some_iff, decide_eq_false_iff_not] at hFound
  obtain ⟨⟨scan, hWord, hValue⟩, hQuiet, hOther⟩ := hFound
  have hSteps : Leads plain.JumplessStep strayLine (f, t) :=
    (steps_of_walk? hWalk).mono fun _ _ hStep => hStep
  have hOff : ¬ strayScript.OnLine strayLine.1.pos f.wordStart := fun hOn => hOther hOn.2
  have hNoWarning : ∀ line ∈ t.log, line.level ≠ .warn := fun line hLine =>
    of_decide_eq_true (Array.all_eq_true_iff_forall_mem.mp hQuiet line hLine)
  refine ⟨f, t, scan, hSteps, hWord, hValue, hNoWarning, hOff, ?_⟩
  have hIff := @wordStart_onLine_iff plain Registry.builtins_ofBuiltins strayLine.1 f strayLine.2 t
    scan rfl hSteps hWord
  exact Classical.byContradiction fun hNone => hOff (hIff.mpr hNone)

end Rules

end EntityScript
