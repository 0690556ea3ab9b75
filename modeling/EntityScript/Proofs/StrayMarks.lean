import EntityScript.Proofs.Muting
import EntityScript.Proofs.Passes
import EntityScript.Proofs.Spelling

/-! Command words with nothing in them. A dispatch that reads one takes the script to be over. That is
what an empty word says where only gaps and remarks are left, but quotes and tildes that stand alone give an
empty word too, because a command word does not keep them. They are reported, and the dispatch ends with
text behind it that it never reads. -/
namespace EntityScript

namespace Script

variable {rest cs line marks : List Char} {pos : Nat}

/-- A quote or a tilde. A command word does not keep them. -/
def isMark (c : Char) : Bool := c = '"' || c = '~'

/-- Gaps and remarks, and `rest` behind them. -/
inductive Quiet (rest : List Char) : List Char → Prop where
  | here : Quiet rest rest
  | gap {c : Char} {cs : List Char} (hGap : isGap c = true) (h : Quiet rest cs) : Quiet rest (c :: cs)
  | remark {line cs : List Char} (hLine : '\n' ∉ line) (hEnds : ∀ c ∈ cs.head?, c = '\n')
      (h : Quiet rest cs) : Quiet rest ('/' :: '/' :: (line ++ cs))

/-- Behind gaps and remarks stand quotes and tildes that no other character of a word touches. -/
structure MarksAlone (marks rest cs : List Char) : Prop where
  nonempty : marks ≠ []
  dropped : ∀ c ∈ marks, isMark c = true
  ended : endsWord rest = true
  behind : Quiet (marks ++ rest) cs

/-- The notes about marks that stand side by side. -/
def markNotes (pos : Nat) (marks : List Char) : List Note :=
  marks.mapIdx fun i c => ⟨pos + i, "unexpected '" ++ c.toString ++ "' in command name"⟩

/-- The notes about an empty word, and behind them the one about the brace that was not reached. -/
def endNotes (scan : Scan (List Char)) : List Note :=
  scan.notes ++ [⟨scan.stop.pos, "missing '\x7d' before end of script"⟩]

theorem markNotes_cons (pos : Nat) (c : Char) (marks : List Char) :
    markNotes pos (c :: marks) =
      ⟨pos, "unexpected '" ++ c.toString ++ "' in command name"⟩ :: markNotes (pos + 1) marks := by
  simp [markNotes, List.mapIdx_cons, Nat.add_assoc, Nat.add_comm 1]

/-! Gaps and remarks are what is passed over. -/

/-- A remark is passed over to the end of its line. -/
theorem skipGaps_remark (hLine : '\n' ∉ line) (hEnds : ∀ c ∈ cs.head?, c = '\n') (pos : Nat) :
    (skipGaps true true pos (line ++ cs)).1 = (skipGaps true false (pos + Text.width line) cs).1 := by
  induction line generalizing pos with
  | nil =>
      cases cs with
      | nil => rfl
      | cons c cs =>
          obtain rfl := hEnds c rfl
          rfl
  | cons c line ih =>
      obtain ⟨hNe, hLine⟩ := not_or.mp (mt List.mem_cons.mpr hLine)
      rw [List.cons_append, skipGaps, if_neg (Ne.symm hNe), if_pos (by simp), ih hLine, Text.width_cons,
        Nat.add_assoc]

theorem Quiet.skipGaps (h : Quiet rest cs) (pos : Nat) :
    ∃ stop, (skipGaps true false pos cs).1 = (skipGaps true false stop rest).1 ∧
      stop + Text.width rest = pos + Text.width cs := by
  induction h generalizing pos with
  | here => exact ⟨pos, rfl, rfl⟩
  | @gap c cs hGap _ ih =>
      obtain ⟨stop, hSkip, hWidth⟩ := ih (pos + c.utf8Size)
      refine ⟨stop, ?_, by rw [hWidth, Text.width_cons, Nat.add_assoc]⟩
      rw [← hSkip, Script.skipGaps]
      split
      · rename_i hNewline
        subst hNewline
        rfl
      · simp [hGap]
  | @remark line cs hLine hEnds _ ih =>
      obtain ⟨stop, hSkip, hWidth⟩ := ih (pos + 2 + Text.width line)
      have hSlash : '/'.utf8Size = 1 := by decide
      refine ⟨stop, ?_, ?_⟩
      · rw [← hSkip, ← skipGaps_remark hLine hEnds]
        simp [Script.skipGaps, isGap, hSlash]
      · rw [hWidth, Text.width_cons, Text.width_cons, Text.width_append, hSlash]
        omega

/-- What is passed over is gaps and remarks. Inside a remark, the rest of the line comes first. -/
theorem quiet_skipGaps (remark : Bool) (pos : Nat) (cs : List Char) :
    ∃ line behind, cs = line ++ behind ∧ '\n' ∉ line ∧ (remark = false → line = []) ∧
      (remark = true → ∀ c ∈ behind.head?, c = '\n') ∧
      Quiet (skipGaps true remark pos cs).1.rest behind := by
  induction cs generalizing remark pos with
  | nil => exact ⟨[], [], rfl, by simp, fun _ => rfl, by simp, .here⟩
  | cons c cs ih =>
      rw [skipGaps]
      by_cases hNewline : c = '\n'
      · obtain ⟨line, behind, rfl, -, hNone, -, hQuiet⟩ := ih false (pos + 1)
        obtain rfl := hNone rfl
        subst hNewline
        exact ⟨[], _, rfl, by simp, fun _ => rfl, by simp, .gap (by decide) (by simpa using hQuiet)⟩
      rw [if_neg hNewline]
      cases remark with
      | true =>
          obtain ⟨line, behind, rfl, hLine, -, hEnds, hQuiet⟩ := ih true (pos + c.utf8Size)
          exact ⟨c :: line, behind, rfl, by simp [Ne.symm hNewline, hLine], fun h => Bool.noConfusion h,
            hEnds, by simpa using hQuiet⟩
      | false =>
          refine ⟨[], c :: cs, rfl, by simp, fun _ => rfl, fun h => Bool.noConfusion h, ?_⟩
          by_cases hGap : isGap c = true
          · obtain ⟨line, behind, rfl, -, hNone, -, hQuiet⟩ := ih false (pos + c.utf8Size)
            obtain rfl := hNone rfl
            exact .gap hGap (by simpa [hGap] using hQuiet)
          rw [if_neg (by simpa using hGap)]
          split
          · rename_i hSlashes
            obtain ⟨rfl, hNext⟩ : c = '/' ∧ cs.head? = some '/' := by simpa using hSlashes
            obtain ⟨cs, rfl⟩ := List.head?_eq_some_iff.mp hNext
            obtain ⟨line, behind, hText, hLine, -, hEnds, hQuiet⟩ := ih true (pos + 1)
            -- The second slash is on the line that the remark passes over.
            cases line with
            | nil =>
                rw [List.nil_append] at hText
                exact absurd (hEnds rfl '/' (hText ▸ rfl)) (by decide)
            | cons first line =>
                obtain ⟨rfl, rfl⟩ := List.cons.inj hText
                exact .remark (fun hIn => hLine (.tail _ hIn)) (hEnds rfl) hQuiet
          · exact .here

/-- Behind gaps and remarks a word begins, unless the text is over. -/
theorem skipGaps_begins {remark : Bool} (hEnded : endsWord (skipGaps true remark pos cs).1.rest = true) :
    (skipGaps true remark pos cs).1.rest = [] := by
  induction cs generalizing remark pos with
  | nil => rfl
  | cons c cs ih =>
      rw [skipGaps] at hEnded ⊢
      split at hEnded
      · rename_i hNewline
        rw [if_pos hNewline]
        exact ih hEnded
      rename_i hNewline
      rw [if_neg hNewline]
      split at hEnded
      · rename_i hPassed
        rw [if_pos hPassed]
        exact ih hEnded
      rename_i hPassed
      rw [if_neg hPassed]
      split at hEnded
      · rename_i hSlashes
        rw [if_pos hSlashes]
        exact ih hEnded
      · rename_i hSlashes
        simp_all [endsWord]

/-! Marks are what an empty word is made of. -/

theorem commandWord_marks (hMarks : ∀ c ∈ marks, isMark c = true) (hEnded : endsWord rest = true)
    (pos : Nat) :
    commandWord pos (marks ++ rest) = ⟨[], ⟨pos + Text.width marks, rest⟩, markNotes pos marks⟩ := by
  induction marks generalizing pos with
  | nil =>
      cases rest with
      | nil => rfl
      | cons c cs =>
          rw [endsWord] at hEnded
          rw [List.nil_append, commandWord, if_pos hEnded]
          rfl
  | cons c marks ih =>
      have hMark : c = '"' ∨ c = '~' := by simpa [isMark] using hMarks c (.head _)
      have hSize : c.utf8Size = 1 := by rcases hMark with rfl | rfl <;> decide
      have hWord : ¬ (isGap c || (c = '/' && (marks ++ rest).head? = some '/')) = true := by
        rcases hMark with rfl | rfl <;> simp [isGap]
      rw [List.cons_append, commandWord, if_neg hWord, ih fun c hc => hMarks c (.tail _ hc)]
      simp only [hMark, hSize, markNotes_cons, Text.width_cons, Nat.add_assoc, Bool.or_eq_true,
        decide_eq_true_eq, if_true]

theorem commandWord_empty (h : (commandWord pos cs).value = []) :
    ∃ marks, cs = marks ++ (commandWord pos cs).stop.rest ∧ (∀ c ∈ marks, isMark c = true) ∧
      endsWord (commandWord pos cs).stop.rest = true := by
  induction cs generalizing pos with
  | nil => exact ⟨[], rfl, by simp, rfl⟩
  | cons c cs ih =>
      rw [commandWord] at h ⊢
      split at h
      · rename_i hEnded
        rw [if_pos hEnded]
        exact ⟨[], rfl, by simp, hEnded⟩
      rename_i hWord
      rw [if_neg hWord]
      dsimp only at h ⊢
      split at h
      · rename_i hMark
        obtain ⟨marks, hText, hMarks, hEnded⟩ := ih h
        rw [if_pos hMark]
        refine ⟨c :: marks, congrArg (c :: ·) hText, ?_, hEnded⟩
        simpa [isMark] using ⟨by simpa using hMark, by simpa [isMark] using hMarks⟩
      · cases h

end Script

namespace Act

variable {inv : Invocation} {p : Progress} {scan : Scan (List Char)}

/-- The session behind the warning that a note comes to. -/
def noted (inv : Invocation) (calls : List Call) (s : Session) (n : Note) : Session :=
  s.write .warn .script (location inv (nameOf s.world inv.entity) n.pos ++ ": " ++ n.message ++
    callTrace inv.script calls)

theorem emit_eq (notes : List Note) (inv : Invocation) (p : Progress) :
    emit notes inv p = .ok () { p with session := notes.foldl (noted inv p.calls) p.session } := by
  induction notes generalizing p with
  | nil => rfl
  | cons n notes ih => exact ih { p with session := noted inv p.calls p.session n }

/-- Reading a word moves behind it and reports what was wrong with it. -/
theorem command_eq {lines : Bool} (hScan : inv.script.commandAt lines p.pos = .ok scan) :
    command lines inv p = .ok (String.ofList scan.value)
      ⟨scan.notes.foldl (noted inv p.calls) p.session, scan.stop.pos, p.calls⟩ := by
  rw [command, invocation_bind, get_bind, hScan]
  dsimp only
  rw [take, bind_assoc, bind_apply, emit_eq]
  rfl

end Act

/-- Where a dispatch reads an empty word, it accepts the event, and all that it does is to report the
notes and the missing brace. -/
theorem Rules.run_blank {s : Script} {pos : Nat} {scan : Scan (List Char)}
    (hScan : s.commandAt true pos = .ok scan) (hBlank : scan.value = []) (rules : Rules) (fuel : Nat)
    {f : Frame} (hScript : f.invocation.script = s) (hPos : f.pos = pos) (hLine : f.stance.line = false)
    (session : Session) :
    rules.run (fuel + 1) f session =
      .ok .accept ((Script.endNotes scan).foldl (Act.noted f.invocation f.calls) session) := by
  subst hScript hPos
  have hRead : f.invocation.script.commandAt (!f.stance.line) f.pos = .ok scan := by
    rw [hLine]
    exact hScan
  have hTurn : Act.turn rules.registry f.stance f.invocation ⟨session, f.pos, f.calls⟩ =
      .ok (.finish .accept) ⟨(Script.endNotes scan).foldl (Act.noted f.invocation f.calls) session,
        scan.stop.pos, f.calls⟩ := by
    rw [Act.turn, Act.bind_apply, Act.command_eq hRead, Script.endNotes, List.foldl_append]
    dsimp only
    rw [hBlank, if_pos rfl, hLine]
    rfl
  rw [Rules.run_succ, Rules.pass, Action.bind_apply, Action.bind_apply, Frame.perform, hTurn]
  rfl

namespace Script

variable {s : Script} {pos : Nat} {scan : Scan (List Char)} {marks rest : List Char}

/-- Where only gaps and remarks are left, the word is empty at the end of the text. -/
theorem commandAt_quiet (hScan : s.commandAt true pos = .ok scan) (hQuiet : Quiet [] (s.rest pos)) :
    scan = ⟨[], ⟨s.size, []⟩, []⟩ := by
  have hSize : s.size = pos + Text.width (s.rest pos) := (commandAt_holds hScan).1.holds.size_eq
  obtain ⟨stop, hSkip, hStop⟩ := hQuiet.skipGaps pos
  rw [commandAt_eq hScan, hSkip, hSize, ← hStop]
  rfl

/-- Where marks stand alone, the word is empty behind them, and each of them is noted. -/
theorem commandAt_marks (hScan : s.commandAt true pos = .ok scan)
    (hAlone : MarksAlone marks rest (s.rest pos)) :
    scan = ⟨[], ⟨s.size - Text.width rest, rest⟩,
      markNotes (s.size - Text.width rest - Text.width marks) marks⟩ := by
  have hSize : s.size = pos + Text.width (s.rest pos) := (commandAt_holds hScan).1.holds.size_eq
  obtain ⟨stop, hSkip, hStop⟩ := hAlone.behind.skipGaps pos
  obtain ⟨c, others, rfl⟩ := List.exists_cons_of_ne_nil hAlone.nonempty
  have hMark : c = '"' ∨ c = '~' := by simpa [isMark] using hAlone.dropped c (.head _)
  have hHere : (Script.skipGaps true false stop (c :: others ++ rest)).1 =
      ⟨stop, c :: others ++ rest⟩ := by
    rcases hMark with rfl | rfl <;> simp [Script.skipGaps, isGap]
  rw [Text.width_append] at hStop
  have hBegin : s.size - Text.width rest - Text.width (c :: others) = stop := by omega
  have hEnd : s.size - Text.width rest = stop + Text.width (c :: others) := by omega
  rw [commandAt_eq hScan, hSkip, hHere, commandWord_marks hAlone.dropped hAlone.ended, hBegin, hEnd]

/-- There is no other way to an empty word. -/
theorem commandAt_blank (hScan : s.commandAt true pos = .ok scan) (hBlank : scan.value = []) :
    Quiet [] (s.rest pos) ∨ ∃ marks rest, MarksAlone marks rest (s.rest pos) := by
  obtain ⟨line, behind, hText, -, hNone, -, hQuiet⟩ := quiet_skipGaps false pos (s.rest pos)
  rw [hNone rfl, List.nil_append] at hText
  rw [← hText] at hQuiet
  rw [commandAt_eq hScan] at hBlank
  obtain ⟨marks, hRest, hMarks, hEnded⟩ := commandWord_empty hBlank
  rw [hRest] at hQuiet
  by_cases hSome : marks = []
  · -- A place behind gaps and remarks at which a word ends is the end of the text.
    rw [hSome, List.nil_append] at hRest hQuiet
    rw [← hRest] at hEnded hQuiet
    rw [skipGaps_begins hEnded] at hQuiet
    exact .inl hQuiet
  · exact .inr ⟨marks, _, hSome, hMarks, hEnded, hQuiet⟩

/-- A command word is empty where only gaps and remarks are left, and where marks stand alone; and
nowhere else. In the first case the end of the text is reached and nothing is reported. In the second the
marks are reported one by one, and what is behind them is left. Either way the dispatch that reads
the word is over: it accepts the event as if the script had ended there. -/
theorem blank_word_ends_dispatch (hScan : s.commandAt true pos = .ok scan) :
    (scan.value = [] ↔
      Quiet [] (s.rest pos) ∨ ∃ marks rest, MarksAlone marks rest (s.rest pos)) ∧
    (Quiet [] (s.rest pos) → scan = ⟨[], ⟨s.size, []⟩, []⟩) ∧
    (∀ marks rest, MarksAlone marks rest (s.rest pos) →
      scan = ⟨[], ⟨s.size - Text.width rest, rest⟩,
        markNotes (s.size - Text.width rest - Text.width marks) marks⟩) ∧
    (scan.value = [] → ∀ (rules : Rules) (fuel : Nat) (f : Frame) (session : Session),
      f.invocation.script = s → f.pos = pos → f.stance.line = false →
        rules.run (fuel + 1) f session =
          .ok .accept ((endNotes scan).foldl (Act.noted f.invocation f.calls) session)) := by
  refine ⟨⟨commandAt_blank hScan, ?_⟩, commandAt_quiet hScan, fun _ _ => commandAt_marks hScan, ?_⟩
  · rintro (hQuiet | ⟨marks, rest, hAlone⟩)
    · rw [commandAt_quiet hScan hQuiet]
    · rw [commandAt_marks hScan hAlone]
  · exact fun hBlank rules fuel f session hScript hPos hLine =>
      Rules.run_blank hScan hBlank rules fuel hScript hPos hLine session

/-- A quote alone on its line ends the dispatch in front of a command. -/
theorem stray_quote_ends_dispatch :
    let s : Script := ⟨"npc", "\"\nset #x 1\n".toList⟩
    s.commandAt true 0 =
        .ok ⟨[], ⟨1, "\nset #x 1\n".toList⟩, [⟨0, "unexpected '\"' in command name"⟩]⟩ ∧
      ∀ (rules : Rules) (fuel : Nat) (f : Frame) (session : Session),
        f.invocation.script = s → f.pos = 0 → f.stance.line = false →
          rules.run (fuel + 1) f session = .ok .accept (List.foldl (Act.noted f.invocation f.calls) session
            [⟨0, "unexpected '\"' in command name"⟩, ⟨1, "missing '\x7d' before end of script"⟩]) := by
  have hScan : Script.commandAt ⟨"npc", "\"\nset #x 1\n".toList⟩ true 0 =
      .ok ⟨[], ⟨1, "\nset #x 1\n".toList⟩, [⟨0, "unexpected '\"' in command name"⟩]⟩ := by rfl
  exact ⟨hScan, (blank_word_ends_dispatch hScan).2.2.2 rfl⟩

end Script

end EntityScript
