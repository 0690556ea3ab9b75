import EntityScript.Dispatch
import EntityScript.Proofs.Commands

/-! Everything that one turn of a dispatch can do. A turn reads a command word and then reads on, opens
or closes a block, jumps, or ends the dispatch. -/
namespace EntityScript

namespace Registry

/-- A command that is found is among the entries, under the normal name it is found by. -/
theorem mem_of_find? {r : Registry} {word : String} {c : Command} (h : r.find? word = some c) :
    (Command.normalize word, c) ∈ r.entries := by
  obtain ⟨before, after, hSplit, _⟩ := List.lookup_eq_some_iff.mp h
  rw [hSplit]
  simp

/-- Adding a command brings in no entry but its own. -/
theorem mem_of_add? {r s : Registry} {c : Command} (h : r.add? c = some s) {e : String × Command}
    (he : e ∈ s.entries) : e ∈ r.entries ∨ e = (Command.normalize c.name, c) := by
  unfold add? at h
  dsimp only at h
  split at h
  · cases h
  · cases h
    exact (List.mem_append.mp he).imp_right List.mem_singleton.mp

/-- Every command is one that sessions have, under its own normal name. -/
def OfBuiltins (r : Registry) : Prop :=
  ∀ e ∈ r.entries, e.2 ∈ Command.builtins ∧ e.1 = Command.normalize e.2.name

theorem OfBuiltins.add? {r s : Registry} {c : Command} (hr : r.OfBuiltins)
    (hc : c ∈ Command.builtins) (h : r.add? c = some s) : s.OfBuiltins := by
  intro e he
  rcases mem_of_add? h he with hOld | rfl
  · exact hr e hOld
  · exact ⟨hc, rfl⟩

theorem OfBuiltins.ofList {cs : List Command} (hcs : ∀ c ∈ cs, c ∈ Command.builtins) :
    (Registry.ofList cs).OfBuiltins := by
  have hFold (r : Registry) (hr : r.OfBuiltins) :
      (cs.foldl (fun r c => (r.add? c).getD r) r).OfBuiltins := by
    induction cs generalizing r with
    | nil => exact hr
    | cons c cs ih =>
        rw [List.foldl_cons]
        refine ih (fun c hc => hcs c (List.mem_cons_of_mem _ hc)) _ ?_
        cases hAdd : r.add? c with
        | none => exact hr
        | some s => exact hr.add? (hcs c List.mem_cons_self) hAdd
  exact hFold empty nofun

theorem builtins_ofBuiltins : Registry.builtins.OfBuiltins := .ofList fun _ h => h

theorem OfBuiltins.find? {r : Registry} (hr : r.OfBuiltins) {word : String} {c : Command}
    (h : r.find? word = some c) :
    c ∈ Command.builtins ∧ Command.normalize word = Command.normalize c.name :=
  hr _ (mem_of_find? h)

end Registry

namespace Command

theorem normalize_ofList (cs : List Char) :
    (normalize (String.ofList cs)).toList = (cs.filter (· ≠ '_')).flatMap Text.lowerChar := by
  rw [normalize, String.toList_ofList, String.toList_ofList]

/-- No command is named by a brace and what follows it, or by nothing. -/
theorem normalize_head {c : Command} (h : c ∈ builtins) :
    ((normalize c.name).toList.head?.any fun first => first ≠ '\x7b' && first ≠ '\x7d') = true := by
  have hNames : ∀ name ∈ builtins.map Command.name,
      ((normalize name).toList.head?.any fun first => first ≠ '\x7b' && first ≠ '\x7d') = true := by
    decide +kernel
  exact hNames _ (List.mem_map_of_mem h)

end Command

/-- A word that denotes a command does not begin with a brace. -/
theorem Registry.OfBuiltins.find?_head {r : Registry} (hr : r.OfBuiltins) {cs : List Char}
    {c : Command} (h : r.find? (String.ofList cs) = some c) :
    ∃ first rest, cs = first :: rest ∧ first ≠ '\x7b' ∧ first ≠ '\x7d' := by
  obtain ⟨hBuiltin, hNormal⟩ := hr.find? h
  have hHead := Command.normalize_head hBuiltin
  rw [← hNormal, Command.normalize_ofList] at hHead
  cases cs with
  | nil => cases hHead
  | cons first rest =>
      refine ⟨first, rest, rfl, ?_, ?_⟩
      · rintro rfl
        simp [show Text.lowerChar '\x7b' = ['\x7b'] by decide +kernel] at hHead
      · rintro rfl
        simp [show Text.lowerChar '\x7d' = ['\x7d'] by decide +kernel] at hHead

namespace Command

/-- A command with a name that no command outside the flow of a script has. -/
theorem mem_flow (names : List String) (hOthers : ∀ name ∈ (assignment ++ schedule ++ messaging ++
      membership ++ gameplay ++ listings).map Command.name, name ∉ names)
    {c : Command} (h : c ∈ builtins) (hName : c.name ∈ names) : c ∈ flow := by
  simp only [builtins, List.append_assoc, List.mem_append] at h
  rcases h with h | h
  · exact h
  · exact absurd hName (hOthers _ (List.mem_map_of_mem (by simpa using h)))

theorem jump_run {c : Command} (h : c ∈ builtins) (hName : c.name ∈ jumps) :
    c.run = runJump false ∨ c.run = runJump true ∨ c.run = runReturn := by
  have hFlow := mem_flow jumps (by decide) h hName
  simp only [flow, List.mem_cons, List.not_mem_nil, or_false] at hFlow
  rcases hFlow with rfl | rfl | rfl | rfl | rfl | rfl | rfl | rfl
  · exact absurd hName (by decide)
  · exact absurd hName (by decide)
  · exact absurd hName (by decide)
  · exact absurd hName (by decide)
  · exact .inl rfl
  · exact .inr (.inl rfl)
  · exact .inr (.inr rfl)
  · exact absurd hName (by decide)

end Command

theorem Advance.refl (inv : Invocation) (here : Progress) : Advance inv here (· = here.pos) here :=
  ⟨.refl _, rfl, rfl⟩

theorem Advance.onward {inv : Invocation} {here p : Progress}
    (h : Advance inv here (· = here.pos) p) : Advance inv here (inv.script.Onward here.pos) p :=
  h.weaken fun hPos => hPos ▸ .refl _ _

/-- A jump from the place `pos` with the return points `calls` to `target` with `calls'`. -/
inductive Act.Leap (script : Script) (pos : Nat) (calls : List Call) (target : Nat)
    (calls' : List Call) : Prop where
  /-- Into a subroutine, which returns to the place behind its label. -/
  | enter (label : String) (hLabel : script.label? label = some target)
      (hCalls : calls' = ⟨label, (Script.nextWord pos (script.rest pos)).stop.pos⟩ :: calls)
  | go (label : String) (hLabel : script.label? label = some target) (hCalls : calls' = calls)
  | back (label : String) (hCalls : calls = ⟨label, target⟩ :: calls')

namespace Act

variable {inv : Invocation}

/-- What a reply leaves: a jump, or what reading on leaves. -/
inductive Replied (inv : Invocation) (here : Progress) : Reply → Progress → Prop where
  | jumped {q : Progress} (hSession : Session.Evolves (inv.Fresh here) here.session q.session)
      (hLeap : Leap inv.script here.pos here.calls q.pos q.calls) : Replied inv here .jumped q
  | stayed {r : Reply} {q : Progress} (hReply : r ≠ .jumped)
      (hAdvance : Advance inv here (inv.script.Onward here.pos) q) : Replied inv here r q

variable {here p : Progress}

theorem runJump_ends (subroutine : Bool) (hp : Advance inv here (· = here.pos) p) :
    Ends inv here (Command.runJump subroutine) p (Replied inv here) := by
  let behind := (Script.nextWord here.pos (inv.script.rest here.pos)).stop.pos
  have hOn : inv.script.Onward here.pos behind :=
    Script.onward_of_reaches (Script.nextWord_reaches _ _)
  have hWord : Ends inv here word p fun name q =>
      Advance inv here (· = behind) q ∧ inv.script.Names name := by
    obtain ⟨log, hLog⟩ := rawWord_eq inv p
    refine Ends.bind (.of_ok hLog (P := fun w q => Advance inv here (· = behind) q ∧
      inv.script.Writes w) ⟨⟨hp.session.trans (.of_same rfl rfl rfl), ?_, hp.calls⟩,
        .argument p.pos (inv.script.rest_suffix p.pos)⟩) fun w q hq => ?_
    · simp only [Progress.read, hp.pos, behind]
    · exact Steady.expand hq.2 q hq.1
  refine hWord.bind fun label q hq => ?_
  have hAdvance : Advance inv here (inv.script.Onward here.pos) q :=
    hq.1.weaken fun hPos => hPos ▸ hOn
  cases hLabel : inv.script.label? (labelName label) with
  | none =>
      have hJump : jump label subroutine inv q = .ok false q := by
        rw [jump, invocation_bind, hLabel]
        rfl
      refine Ends.bind (.of_ok hJump (P := fun found r => found = false ∧ r = q) ⟨rfl, rfl⟩) ?_
      rintro found r ⟨rfl, rfl⟩
      refine ((Logs.diagnoseToken _ _ _).steady r hAdvance).bind fun _ r hr => ?_
      exact .stayed nofun hr.1
  | some target =>
      have hJump : jump label subroutine inv q = .ok true { q with
          calls := if subroutine then ⟨labelName label, q.pos⟩ :: q.calls else q.calls
          pos := target } := by
        rw [jump, invocation_bind, hLabel]
        rfl
      refine Ends.bind (.of_ok hJump (P := fun found r => found = true ∧ Replied inv here .jumped r)
        ⟨rfl, .jumped hAdvance.session ?_⟩) ?_
      · cases subroutine with
        | true =>
            refine .enter (labelName label) hLabel ?_
            simp only [if_true, hq.1.pos, hq.1.calls]
            rfl
        | false => exact .go (labelName label) hLabel hq.1.calls
      · rintro found r ⟨rfl, hr⟩
        exact hr

theorem runReturn_ends (hp : Advance inv here (· = here.pos) p) :
    Ends inv here Command.runReturn p (Replied inv here) := by
  cases hCalls : p.calls with
  | nil =>
      have hBack : comeBack inv p = .ok false p := by
        rw [comeBack, get_bind, hCalls]
        rfl
      refine Ends.bind (.of_ok hBack (P := fun found q => found = false ∧ q = p) ⟨rfl, rfl⟩) ?_
      rintro found q ⟨rfl, rfl⟩
      refine ((Logs.error _).steady q hp.onward).bind fun _ r hr => ?_
      exact .stayed nofun hr.1
  | cons c cs =>
      have hBack : comeBack inv p = .ok true { p with pos := c.returnPos, calls := cs } := by
        rw [comeBack, get_bind, hCalls]
        rfl
      refine Ends.bind (.of_ok hBack (P := fun found q => found = true ∧ Replied inv here .jumped q)
        ⟨rfl, .jumped (hp.session.trans (.of_same rfl rfl rfl))
          (.back c.label (hp.calls.symm.trans hCalls))⟩) ?_
      rintro found q ⟨rfl, hq⟩
      exact hq

theorem announce_logs (word : String) : Logs (announce word) := fun _ _ => ⟨_, rfl⟩

theorem mayGive_steady {start : Progress} {M : Nat → Prop} (c : Command) :
    Steady inv start M (fun _ => True) (mayGive c) :=
  Steady.self?.andThen fun _ => .pure True.intro

theorem run_ends {c : Command} (hCommand : c ∈ Command.builtins)
    (hp : Advance inv here (· = here.pos) p) :
    Ends inv here c.run p fun r q => Replied inv here r q ∧
      (r = .jumped → c.name ∈ Command.jumps) := by
  by_cases hName : c.name ∈ Command.jumps
  · refine Ends.mono (P := Replied inv here) ?_ fun r q hr => ⟨hr, fun _ => hName⟩
    rcases Command.jump_run hCommand hName with hRun | hRun | hRun
    · rw [hRun]
      exact runJump_ends false hp
    · rw [hRun]
      exact runJump_ends true hp
    · rw [hRun]
      exact runReturn_ends hp
  · refine (Command.builtins_steady hCommand hName inv here p hp.onward).mono fun r q hr => ?_
    exact ⟨.stayed hr.2 hr.1, fun hJumped => absurd hJumped hr.2⟩

theorem obey_ends {c : Command} (hCommand : c ∈ Command.builtins) (word : String)
    (hp : Advance inv here (· = here.pos) p) :
    Ends inv here (obey c word) p fun r q => Replied inv here r q ∧
      (r = .jumped → c.name ∈ Command.jumps) := by
  refine (mayGive_steady c p hp).bind fun allowed q hq => ?_
  split
  · change Ends inv here (if inv.dry && !c.harmless then Pure.pure (Reply.finish .refuse) else c.run)
      q _
    split
    · exact ⟨.stayed nofun hq.1.onward, nofun⟩
    · exact run_ends hCommand hq.1
  · refine ((Logs.diagnoseToken _ _ _).steady q hq.1.onward).bind fun _ r hr => ?_
    refine (Steady.map (f := fun _ => ()) Reads.skipLine.steady r hr.1).bind fun _ t ht => ?_
    exact ⟨.stayed nofun ht.1, nofun⟩

/-- What a turn makes of a command word that ends at `here`. -/
inductive Turned (registry : Registry) (inv : Invocation) (stance : Stance) (word : String)
    (here : Progress) : Turn → Progress → Prop where
  | finished {v : Verdict} {q : Progress}
      (hAdvance : Advance inv here (inv.script.Onward here.pos) q) :
      Turned registry inv stance word here (.finish v) q
  /-- Neither a brace nor a jump. -/
  | passed {q : Progress} (hWord : word ≠ "\x7b" ∧ word ≠ "\x7d")
      (hAdvance : Advance inv here (inv.script.Onward here.pos) q) :
      Turned registry inv stance word here (.go stance) q
  | sent {s : Send} {q : Progress} (hWord : word ≠ "\x7b" ∧ word ≠ "\x7d")
      (hAdvance : Advance inv here (inv.script.Onward here.pos) q) :
      Turned registry inv stance word here (.send s stance) q
  | opened {q : Progress} (hWord : word = "\x7b") (hAdvance : Advance inv here (· = here.pos) q) :
      Turned registry inv stance word here (.go { stance with brackets := stance.brackets.opened }) q
  | closed {q : Progress} (hWord : word = "\x7d") (hBrackets : stance.brackets ≠ .event 1)
      (hAdvance : Advance inv here (· = here.pos) q) :
      Turned registry inv stance word here (.go { stance with brackets := stance.brackets.closed }) q
  /-- The closing brace of the event, behind which the script is known to go on. -/
  | resumed {q : Progress} (hWord : word = "\x7d") (hBrackets : stance.brackets = .event 1)
      (hResumes : inv.suppressions.resumes inv.script.name here.pos = true)
      (hAdvance : Advance inv here (· = here.pos) q) :
      Turned registry inv stance word here (.go stance) q
  | leapt {c : Command} {q : Progress} (hCommand : registry.find? word = some c)
      (hName : c.name ∈ Command.jumps)
      (hSession : Session.Evolves (inv.Fresh here) here.session q.session)
      (hLeap : Leap inv.script here.pos here.calls q.pos q.calls) :
      Turned registry inv stance word here
        (.go ⟨false, .landed (inv.script.blockDepth q.pos)⟩) q

theorem Turned.evolves {registry : Registry} {stance : Stance} {word : String} {turn : Turn}
    {q : Progress} (h : Turned registry inv stance word here turn q) :
    Session.Evolves (inv.Fresh here) here.session q.session := by
  cases h with
  | finished hAdvance => exact hAdvance.session
  | passed _ hAdvance => exact hAdvance.session
  | sent _ hAdvance => exact hAdvance.session
  | opened _ hAdvance => exact hAdvance.session
  | closed _ _ hAdvance => exact hAdvance.session
  | resumed _ _ _ hAdvance => exact hAdvance.session
  | leapt _ _ hSession _ => exact hSession

/-- A turn reads on and keeps the return points, or it jumps. -/
theorem Turned.moves {registry : Registry} {stance : Stance} {word : String} {turn : Turn}
    {q : Progress} (h : Turned registry inv stance word here turn q) :
    (inv.script.Onward here.pos q.pos ∧ q.calls = here.calls) ∨
      Leap inv.script here.pos here.calls q.pos q.calls := by
  cases h with
  | finished hAdvance => exact .inl ⟨hAdvance.pos, hAdvance.calls⟩
  | passed _ hAdvance => exact .inl ⟨hAdvance.pos, hAdvance.calls⟩
  | sent _ hAdvance => exact .inl ⟨hAdvance.pos, hAdvance.calls⟩
  | opened _ hAdvance => exact .inl ⟨hAdvance.onward.pos, hAdvance.calls⟩
  | closed _ _ hAdvance => exact .inl ⟨hAdvance.onward.pos, hAdvance.calls⟩
  | resumed _ _ _ hAdvance => exact .inl ⟨hAdvance.onward.pos, hAdvance.calls⟩
  | leapt _ _ _ hLeap => exact .inr hLeap

variable {registry : Registry} {stance : Stance} {word : String}

theorem answer_ends {c : Command} (hRegistry : registry.OfBuiltins)
    (hCommand : registry.find? word = some c) {r : Reply} (hReplied : Replied inv here r p)
    (hName : r = .jumped → c.name ∈ Command.jumps) :
    Ends inv here (answer stance r) p (Turned registry inv stance word here) := by
  have hWord : word ≠ "\x7b" ∧ word ≠ "\x7d" := by
    rw [← String.ofList_toList (s := word)] at hCommand
    obtain ⟨first, rest, hFirst, hOpen, hClose⟩ := hRegistry.find?_head hCommand
    refine ⟨?_, ?_⟩
    · rintro rfl
      exact hOpen (List.cons.inj hFirst).1.symm
    · rintro rfl
      exact hClose (List.cons.inj hFirst).1.symm
  cases hReplied with
  | jumped hSession hLeap => exact .leapt hCommand (hName rfl) hSession hLeap
  | stayed hReply hAdvance =>
      cases r with
      | success => exact .passed hWord hAdvance
      | failed => exact .passed hWord hAdvance
      | finish v => exact .finished hAdvance
      | jumped => exact absurd rfl hReply
      | send s => exact .sent hWord hAdvance

theorem timer_ends {name : String} (hWord : word ≠ "\x7b" ∧ word ≠ "\x7d")
    (hp : Advance inv here (· = here.pos) p) :
    Ends inv here (Command.runTimer name >>= answer stance) p
      (Turned registry inv stance word here) := by
  refine (Command.runTimer_steady name inv here p hp.onward).bind fun r q hr => ?_
  cases r with
  | success => exact .passed hWord hr.1
  | failed => exact .passed hWord hr.1
  | finish v => exact .finished hr.1
  | jumped => exact absurd rfl hr.2
  | send s => exact .sent hWord hr.1

theorem closeEvent_ends (hWord : word = "\x7d") (hBrackets : stance.brackets = .event 1)
    (hp : Advance inv here (· = here.pos) p) :
    Ends inv here (closeEvent stance) p (Turned registry inv stance word here) := by
  change Ends inv here (if inv.suppressions.resumes inv.script.name p.pos then
    debug "suppressed: block end without accept or refuse" >>= fun _ => Pure.pure (Turn.go stance)
    else warnAt "\x7d" "missing accept or refuse before end of event block" >>= fun _ =>
      Pure.pure (Turn.finish .accept)) p _
  split
  · rename_i hResumes
    refine ((Logs.debug _).steady p hp).bind fun _ q hq => ?_
    exact .resumed hWord hBrackets (hp.pos ▸ hResumes) hq.1
  · refine ((Logs.diagnoseToken _ _ _).steady p hp.onward).bind fun _ q hq => ?_
    exact .finished hq.1

theorem passWord_ends (hp : Advance inv here (· = here.pos) p) :
    Ends inv here (passWord stance word) p (Turned registry inv stance word here) := by
  unfold passWord
  split
  · rename_i hLabel
    refine (Steady.map (f := fun _ => ()) Reads.skipLine.steady p hp.onward).bind fun _ q hq => ?_
    refine .passed ⟨?_, ?_⟩ hq.1
    · rintro rfl
      exact absurd hLabel (by decide)
    · rintro rfl
      exact absurd hLabel (by decide)
  split
  · rename_i hOpen
    exact .opened hOpen hp
  rename_i hOpen
  split
  · rename_i hClose
    split
    · rename_i hLast
      exact closeEvent_ends hClose hLast hp
    · rename_i hLast
      exact .closed hClose hLast hp
  rename_i hClose
  split
  · refine ((Logs.diagnoseToken _ _ _).steady p hp.onward).bind fun _ q hq => ?_
    exact .finished hq.1
  · refine ((Logs.diagnoseToken _ _ _).steady p hp.onward).bind fun _ q hq => ?_
    refine (Steady.map (f := fun _ => ()) Reads.skipLine.steady q hq.1).bind fun _ r hr => ?_
    exact .passed ⟨hOpen, hClose⟩ hr.1

theorem follow_ends (hRegistry : registry.OfBuiltins)
    (hp : Advance inv here (· = here.pos) p) :
    Ends inv here (follow registry stance word) p (Turned registry inv stance word here) := by
  unfold follow
  split
  · rename_i c hCommand
    exact (obey_ends (hRegistry.find? hCommand).1 word hp).bind fun r q hr =>
      answer_ends hRegistry hCommand hr.1 hr.2
  · rename_i name hNone hTimer
    change Ends inv here (if inv.dry then Pure.pure (Turn.finish .refuse)
      else Command.runTimer (String.ofList name) >>= answer stance) p _
    split
    · exact .finished hp.onward
    · refine timer_ends ⟨?_, ?_⟩ hp
      · rintro rfl
        have hNone : behind? "timer" "\x7b".toList = none := by decide
        exact nomatch hNone.symm.trans hTimer
      · rintro rfl
        have hNone : behind? "timer" "\x7d".toList = none := by decide
        exact nomatch hNone.symm.trans hTimer
  · exact passWord_ends hp

/-- A turn reads a command word and makes of it one of the listed. It fails where no text is, or with
an excuse for what lies behind the word. -/
theorem turn_cases (hRegistry : registry.OfBuiltins) (stance : Stance) (inv : Invocation)
    (p : Progress) : Ends inv p (turn registry stance) p fun t q =>
      ∃ scan log, inv.script.commandAt (!stance.line) p.pos = .ok scan ∧
        Turned registry inv stance (String.ofList scan.value) (p.read log scan.stop.pos) t q := by
  unfold turn
  rcases command_cases (!stance.line) inv p with ⟨scan, log, hScan, hRun⟩ | ⟨hRun, hInvalid⟩
  · let here := p.read log scan.stop.pos
    refine Ends.bind (.of_ok hRun (P := fun word q => word = String.ofList scan.value ∧ q = here)
      ⟨rfl, rfl⟩) ?_
    rintro word q ⟨rfl, rfl⟩
    -- The cursor may stand behind the word if it may stand before it.
    have hExcuses : ∀ h, inv.Excuses here h → inv.Excuses p h := fun h hExcuse =>
      hExcuse.imp_right fun hOutside => ⟨hOutside.1, fun hPlaced =>
        hOutside.2 ((Script.commandAt_onward hScan).placed hPlaced)⟩
    have hSession : ∀ s, Session.Evolves (inv.Fresh here) here.session s →
        Session.Evolves (inv.Fresh p) p.session s := fun s hEvolves =>
      .trans (t := here.session) (.of_same rfl rfl rfl) (hEvolves.mono fun t ht =>
        ⟨ht.clock, ht.script, (Script.commandAt_onward hScan).trans ht.onward, ht.valid⟩)
    refine Ends.excused hExcuses hSession (Ends.mono ?_ fun t q hTurned =>
      ⟨scan, log, hScan, hTurned⟩)
    split
    · dsimp only
      split
      · exact .finished (Advance.refl inv here).onward
      · refine ((Logs.warn _).steady here (Advance.refl inv here).onward).bind fun _ q hq => ?_
        exact .finished hq.1
    · refine ((announce_logs _).steady here (Advance.refl inv here)).bind fun _ q hq => ?_
      exact follow_ends hRegistry hq.1
  · exact Ends.bind (.of_error hRun (Steady.excuses_outsideText (Advance.refl inv p).onward hInvalid)
      (.refl _) (P := fun _ _ => False)) fun _ _ hFalse => hFalse.elim

theorem openEvent_steady {start : Progress} :
    Steady inv start (inv.script.Onward start.pos) (fun _ => True) openEvent := by
  refine (Steady.command true).andThen fun word => ?_
  split
  · exact .pure True.intro
  · exact (Logs.diagnoseToken _ _ _).steady.andThen fun _ => .pure True.intro

end Act

end EntityScript
