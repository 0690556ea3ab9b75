import EntityScript.Proofs.OneLineIf
import EntityScript.Proofs.Stirring

/-! Acts that begin on a line stay on it. Where the line has no argument left that they read, they read
it on a later line and report that; conditional statements, which pass over text unread, may lead beyond
the line without a report. -/
namespace EntityScript

namespace Session

variable {script : Script} {inv : Invocation} {s t : Session} {f : Session → Session}

/-- Lines were only added to the log. -/
def Grown (log : Array LogLine) (s : Session) : Prop := ∃ added, s.log = log ++ added

theorem Grown.refl (s : Session) : s.Grown s.log := ⟨#[], by simp⟩

theorem Grown.trans {log : Array LogLine} (h : s.Grown log) (hNext : t.Grown s.log) :
    t.Grown log := by
  obtain ⟨added, hAdded⟩ := h
  obtain ⟨more, hMore⟩ := hNext
  exact ⟨added ++ more, by rw [hMore, hAdded, Array.append_assoc]⟩

theorem write_grown (level : Level) (topic : Topic) (message : String) (s : Session) :
    (s.write level topic message).Grown s.log := ⟨#[⟨level, topic, message⟩], by simp [write]⟩

theorem enqueue_grown (e : QueuedEvent) (s : Session) : (s.enqueue e).2.Grown s.log := by
  unfold enqueue
  dsimp only
  split
  · exact .refl _
  · exact write_grown _ _ _ _

theorem destroy_grown (id : EntityId) (s : Session) : (s.destroy id).2.Grown s.log := by
  unfold destroy
  split
  · exact .refl _
  · exact write_grown _ _ _ _

theorem Look.grown (h : s.Look script f) : (f s).Grown s.log := by
  cases h with
  | write level topic message => exact write_grown _ _ _ _
  | ask => exact .refl _
  | draw => exact .refl _

theorem Deed.grown (h : s.Deed inv f) : (f s).Grown s.log := by
  cases h with
  | start => exact write_grown _ _ _ _
  | enqueue => exact enqueue_grown _ _
  | _ => exact .refl _

theorem Stir.grown (h : Stir s t) : t.Grown s.log := by
  cases h with
  | look h => exact h.grown
  | deed _ h => exact h.grown
  | destroy id => exact destroy_grown id s
  | depth => exact .refl _

end Session

/-- An offset of the text that is on the same line as another one. -/
def Script.OnLine (s : Script) (pos next : Nat) : Prop := s.Valid next ∧ s.lineStop next = s.lineStop pos

/-- It was reported that reading went on beyond the line of the start. -/
def Invocation.Crossed (inv : Invocation) (start : Progress) (added : Array LogLine) : Prop :=
  ∃ ident, ⟨.warn, .script, Act.location inv ident (inv.script.lineStop start.pos) ++ ": " ++
    "unexpected newline" ++ Act.callTrace inv.script start.calls⟩ ∈ added

/-- The cursor is on the line that it started on, unless it was reported to leave it or there is an
excuse. -/
structure Within (inv : Invocation) (start : Progress) (excuse : Prop) (p : Progress) : Prop where
  calls : p.calls = start.calls
  log : ∃ added, p.session.log = start.session.log ++ added ∧
    (inv.script.OnLine start.pos p.pos ∨ inv.Crossed start added ∨ excuse)

namespace Within

variable {inv : Invocation} {start p q : Progress} {excuse : Prop}

theorem refl (h : inv.script.Valid start.pos) : Within inv start excuse start :=
  ⟨rfl, #[], by simp, .inl ⟨h, rfl⟩⟩

/-- Going on from the line, in any way that keeps the log. -/
theorem next (hp : Within inv start excuse p) (hCalls : q.calls = p.calls)
    (hLog : ∃ more, q.session.log = p.session.log ++ more ∧ (inv.script.OnLine start.pos p.pos →
      inv.script.OnLine start.pos q.pos ∨ inv.Crossed start more ∨ excuse)) :
    Within inv start excuse q := by
  obtain ⟨hSame, added, hAdded, hLine⟩ := hp
  obtain ⟨more, hMore, hOn⟩ := hLog
  refine ⟨hCalls.trans hSame, added ++ more, by rw [hMore, hAdded, Array.append_assoc], ?_⟩
  rcases hLine with hLine | ⟨ident, hReport⟩ | hExcuse
  · refine (hOn hLine).imp_right (Or.imp_left ?_)
    rintro ⟨ident, hReport⟩
    exact ⟨ident, Array.mem_append_right _ hReport⟩
  · exact .inr (.inl ⟨ident, Array.mem_append_left _ hReport⟩)
  · exact .inr (.inr hExcuse)

theorem still (hp : Within inv start excuse p) (hPos : q.pos = p.pos) (hCalls : q.calls = p.calls)
    (hLog : q.session.Grown p.session.log) : Within inv start excuse q := by
  obtain ⟨more, hMore⟩ := hLog
  exact hp.next hCalls ⟨more, hMore, fun hLine => .inl (hPos ▸ hLine)⟩

end Within

namespace Act

variable {inv : Invocation} {start p q : Progress} {excuse : Prop} {α β : Type} {Q : α → Prop}
  {R : β → Prop}

theorem serves_grown (inv : Invocation) (log : Array LogLine) :
    Serves (Session.Only (Session.Grown log)) inv inv :=
  .of_kept (fun _ _ hs hLook => hs.trans hLook.grown) fun _ _ hs hDeed => hs.trans hDeed.grown

/-- Each note is reported with its place. -/
theorem emit_ok (notes : List Note) (inv : Invocation) (p : Progress) :
    ∃ more, emit notes inv p = .ok () (p.read (p.session.log ++ more) p.pos) ∧
      ∀ n ∈ notes, ∃ ident, ⟨.warn, .script, location inv ident n.pos ++ ": " ++ n.message ++
        callTrace inv.script p.calls⟩ ∈ more := by
  induction notes generalizing p with
  | nil =>
      refine ⟨#[], ?_, nofun⟩
      rw [Array.append_empty]
      rfl
  | cons note notes ih =>
      let ident := ((p.session.world.entities.get? inv.entity).map Entity.ident).getD "unknown"
      let line : LogLine := ⟨.warn, .script, location inv ident note.pos ++ ": " ++ note.message ++
        callTrace inv.script p.calls⟩
      obtain ⟨more, hRest, hReported⟩ := ih (p.read (p.session.log.push line) p.pos)
      refine ⟨#[line] ++ more, ?_, ?_⟩
      · have hFirst : diagnose .warn true note.pos note.message inv p =
            .ok () (p.read (p.session.log.push line) p.pos) := rfl
        change (diagnose .warn true note.pos note.message >>= fun _ => emit notes) inv p = _
        rw [bind_apply, hFirst]
        dsimp only
        rw [hRest, ← Array.append_assoc, Array.append_singleton]
        rfl
      · intro n hn
        rcases List.mem_cons.mp hn with rfl | hn
        · exact ⟨ident, Array.mem_append_left _ (by simp [line])⟩
        · obtain ⟨ident', hReport⟩ := hReported n hn
          exact ⟨ident', Array.mem_append_right _ hReport⟩

theorem Steady.stays {act : Act α} {a : α}
    (h : ∀ here : Progress, Steady inv here (· = here.pos) Q act) (hRun : act inv p = .ok a q) :
    q.pos = p.pos ∧ q.calls = p.calls := by
  have hEnds := h p p (Advance.refl inv p)
  rw [Ends, hRun] at hEnds
  exact ⟨hEnds.1.pos, hEnds.1.calls⟩

/-- Performed within its line, the act ends within it, with a value that has `Q`. -/
def Confined (inv : Invocation) (start : Progress) (excuse : Prop) (Q : α → Prop) (act : Act α) :
    Prop :=
  ∀ p a q, Within inv start excuse p → act inv p = .ok a q → Within inv start excuse q ∧ Q a

/-- A scan from the cursor that stays on the line, or notes where it leaves it. -/
theorem take_within {scan : Scan α} {a : α} (hp : Within inv start excuse p)
    (hScan : Place.Along ⟨p.pos, inv.script.rest p.pos⟩ scan.stop ∨
      ⟨inv.script.lineStop p.pos, "unexpected newline"⟩ ∈ scan.notes)
    (hRun : take scan inv p = .ok a q) : Within inv start excuse q ∧ a = scan.value := by
  obtain ⟨more, hEmit, hReported⟩ := emit_ok scan.notes inv p
  unfold take at hRun
  rw [bind_apply, hEmit] at hRun
  cases hRun
  refine ⟨hp.next rfl ⟨more, rfl, fun hLine => ?_⟩, rfl⟩
  rcases hScan with hAlong | hNote
  · have hHere := hLine.1.holds
    exact .inl ⟨(hHere.reaches hAlong.reaches).valid, (hHere.lineStop_along hAlong).trans hLine.2⟩
  · obtain ⟨ident, hReport⟩ := hReported _ hNote
    rw [hLine.2, hp.calls] at hReport
    exact .inr (.inl ⟨ident, hReport⟩)

namespace Confined

theorem pure {a : α} (ha : Q a) : Confined inv start excuse Q (Pure.pure a) := by
  intro p b q hp hRun
  cases hRun
  exact ⟨hp, ha⟩

theorem bind {x : Act α} {f : α → Act β} (hx : Confined inv start excuse Q x)
    (hf : ∀ a, Q a → Confined inv start excuse R (f a)) : Confined inv start excuse R (x >>= f) := by
  intro p b q hp hRun
  rw [bind_apply] at hRun
  cases hFirst : x inv p with
  | ok a r =>
      rw [hFirst] at hRun
      obtain ⟨hr, ha⟩ := hx p a r hp hFirst
      exact hf a ha r b q hr hRun
  | error halt r =>
      rw [hFirst] at hRun
      cases hRun

/-- Going on with any value. -/
theorem andThen {x : Act α} {f : α → Act β} (hx : Confined inv start excuse (fun _ => True) x)
    (hf : ∀ a, Confined inv start excuse R (f a)) : Confined inv start excuse R (x >>= f) :=
  hx.bind fun a _ => hf a

theorem map {x : Act α} {f : α → β} (hx : Confined inv start excuse (fun _ => True) x) :
    Confined inv start excuse (fun _ => True) (f <$> x) :=
  hx.andThen fun _ => .pure True.intro

/-- Going on with what stands at the cursor. -/
theorem here {f : Progress → Act β} (hf : ∀ p, Confined inv start excuse R (f p)) :
    Confined inv start excuse R ((MonadState.get : Act Progress) >>= f) :=
  fun p => hf p p

theorem invocation {f : Invocation → Act β} (hf : Confined inv start excuse R (f inv)) :
    Confined inv start excuse R (Act.invocation >>= f) := hf

theorem onSession {f : Session → Session} (hf : ∀ s : Session, (f s).Grown s.log) :
    Confined inv start excuse (fun _ => True) (Act.onSession f) := by
  intro p a q hp hRun
  cases hRun
  exact ⟨hp.still rfl rfl (hf p.session), True.intro⟩

/-- An act that leaves the cursor where it is. -/
theorem still {S : α → Prop} {act : Act α}
    (hPlace : ∀ here : Progress, Steady inv here (· = here.pos) S act)
    (hLog : ∀ log, Twin (Session.Only (Session.Grown log)) inv inv Q act) :
    Confined inv start excuse Q act := by
  intro p a q hp hRun
  obtain ⟨hPos, hCalls⟩ := Steady.stays hPlace hRun
  obtain ⟨hValue, hGrown⟩ := (hLog p.session.log).kept (.refl _) hRun
  exact ⟨hp.still hPos hCalls hGrown, hValue⟩

theorem logs {act : Act Unit} (h : Logs act)
    (hLog : ∀ log, Twin (Session.Only (Session.Grown log)) inv inv (fun _ => True) act) :
    Confined inv start excuse (fun _ => True) act :=
  .still (fun _ => h.steady) hLog

theorem warn (message : String) : Confined inv start excuse (fun _ => True) (Act.warn message) :=
  .logs (.warn message) fun log => (serves_grown inv log).warn message

theorem debug (message : String) : Confined inv start excuse (fun _ => True) (Act.debug message) :=
  .logs (.debug message) fun log => (serves_grown inv log).debug message

theorem token (level : Level) (token message : String) :
    Confined inv start excuse (fun _ => True) (diagnoseToken level token message) :=
  .logs (.diagnoseToken level token message) fun log => (serves_grown inv log).token level token message

theorem world : Confined inv start excuse (fun _ => True) Act.world :=
  .still (fun _ => Steady.world.mono fun _ _ => True.intro) fun log => (serves_grown inv log).worldValue

theorem self? : Confined inv start excuse (fun _ => True) Act.self? :=
  .still (fun _ => Steady.self?) fun log => (serves_grown inv log).self?

theorem resolve? (word : String) :
    Confined inv start excuse (fun _ => True) (Act.resolve? word) :=
  .still (fun _ => Steady.resolve? word) fun log => (serves_grown inv log).resolve? word

theorem onSelf {f : Entity → Entity}
    (hf : ∀ e, (f e).script = e.script ∧ (f e).overriding = e.overriding) :
    Confined inv start excuse (fun _ => True) (Act.onSelf f) :=
  .still (fun _ => Steady.onSelf hf) fun log => (serves_grown inv log).onSelf hf

/-- Changing the entity and telling whether it is there. -/
theorem markSelf {f : Entity → Entity}
    (hf : ∀ e, (f e).script = e.script ∧ (f e).overriding = e.overriding) :
    Confined inv start excuse (fun _ => True)
      (do if ← Act.onSelf f then return Reply.success else return .failed) := by
  refine (onSelf hf).andThen fun live => ?_
  split
  · exact .pure True.intro
  · exact .pure True.intro

theorem unsetVar (key : VarKey) :
    Confined inv start excuse (fun _ => True) (Act.unsetVar key) :=
  .still (fun _ => Steady.unsetVar key) fun log => (serves_grown inv log).unsetVar key

theorem readVar {name : String} (hName : inv.script.Names name) :
    Confined inv start excuse (fun _ => True) (Act.readVar name) :=
  .still (fun _ => Steady.readVar hName) fun log => (serves_grown inv log).readVar hName

theorem readFloat {name : String} (hName : inv.script.Names name) :
    Confined inv start excuse (fun _ => True) (Act.readFloat name) :=
  .still (fun _ => Steady.readFloat hName) fun log => (serves_grown inv log).readFloat hName

theorem expand {word : String} (hWord : inv.script.Writes word) :
    Confined inv start excuse inv.script.Names (Act.expand word) :=
  .still (fun _ => Steady.expand hWord) fun log => (serves_grown inv log).expand hWord

/-! Reading on stays on the line, but for a word, which may be found behind it. -/

theorem rest : Confined inv start excuse (· <:+ inv.script.text) Act.rest :=
  .still (S := fun _ => True) (fun _ _ hp => ⟨hp, True.intro⟩) fun log => (serves_grown inv log).rest

theorem skipGaps (warned : Bool) :
    Confined inv start excuse (fun _ => True) (Act.skipGaps false warned) := by
  intro p a q hp hRun
  rw [Act.skipGaps, get_bind, rest_bind] at hRun
  exact ⟨(take_within hp (.inl (Script.skipGaps_along _ _ _)) hRun).1, True.intro⟩

theorem hasMore : Confined inv start excuse (fun _ => True) Act.hasMore :=
  (skipGaps false).andThen fun _ => rest.bind fun _ _ => .pure True.intro

theorem skipLine : Confined inv start excuse (fun _ => True) Act.skipLine := by
  refine hasMore.andThen fun more => ?_
  split
  · intro p a q hp hRun
    rw [get_bind, rest_bind, bind_apply] at hRun
    split at hRun
    · rename_i hTake
      cases hRun
      exact ⟨(take_within hp (.inl (Script.lineEnd_along _ _)) hTake).1, True.intro⟩
    · cases hRun
  · exact .pure True.intro

/-- A word that is read behind the line is reported. -/
theorem rawWord : Confined inv start excuse inv.script.Writes Act.rawWord := by
  intro p a q hp hRun
  rw [Act.rawWord, get_bind, rest_bind, bind_apply] at hRun
  split at hRun
  · rename_i hTake
    cases hRun
    obtain ⟨hWithin, rfl⟩ := take_within hp (Script.nextWord_along_or_crosses _ _) hTake
    exact ⟨hWithin, .argument p.pos (inv.script.rest_suffix p.pos)⟩
  · cases hRun

theorem flags : Confined inv start excuse (fun _ => True) Act.flags := by
  refine (skipGaps false).andThen fun _ => rest.bind fun cs _ => ?_
  split
  · split
    · exact rawWord.bind fun _ _ => .pure True.intro
    · exact .pure True.intro
  · exact .pure True.intro

theorem word : Confined inv start excuse inv.script.Names Act.word :=
  rawWord.bind fun _ hWord => expand hWord

theorem float : Confined inv start excuse (fun _ => True) Act.float :=
  word.bind fun _ hName => readFloat hName

theorem bool : Confined inv start excuse (fun _ => True) Act.bool :=
  word.bind fun _ _ => .pure True.intro

end Confined

end Act

end EntityScript
