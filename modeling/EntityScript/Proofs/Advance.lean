import EntityScript.Proofs.Evolution
import EntityScript.Proofs.Names

/-! How acts advance. From where it starts, an act only reads on in its script, keeps the return
points and lets the session evolve; the timers that it starts run the line of a place that it read. It
fails only by a name for a random number without a finite bound, or behind a block that a quoted
string runs out of the text. Jumps are no such acts. -/
namespace EntityScript

/-- A timer that a dispatch may start for a line of its script, which begins where text can be read. -/
structure Invocation.Fresh (inv : Invocation) (start : Progress) (t : Timer) : Prop where
  clock : t.start = start.session.world.clock
  script : t.script = inv.script
  onward : inv.script.Onward start.pos t.pos
  valid : inv.script.Valid t.pos

/-- The faults that reading on in a script may come to. -/
def Invocation.Excuses (inv : Invocation) (start : Progress) (h : Halt) : Prop :=
  (h = .fault .unboundedDraw ∧ inv.script.Boundless) ∨
    (h = .fault .outsideText ∧ (inv.script.Placed start.pos → ¬ inv.script.Sealed))

/-- What has become of `start`; `M` tells where the cursor may be by now. -/
structure Advance (inv : Invocation) (start : Progress) (M : Nat → Prop) (p : Progress) : Prop where
  session : Session.Evolves (inv.Fresh start) start.session p.session
  pos : M p.pos
  calls : p.calls = start.calls

theorem Advance.weaken {inv : Invocation} {start p : Progress} {M M' : Nat → Prop}
    (h : Advance inv start M p) (hM : M p.pos → M' p.pos) : Advance inv start M' p :=
  ⟨h.session, hM h.pos, h.calls⟩

/-- The same progress with another log and at another place. -/
def Progress.read (p : Progress) (log : Array LogLine) (pos : Nat) : Progress :=
  ⟨⟨p.session.world, p.session.host, log⟩, pos, p.calls⟩

namespace Act

variable {inv : Invocation} {start : Progress} {M : Nat → Prop} {α β : Type} {Q : α → Prop}
  {R : β → Prop}

/-- Performed at `p`, the act comes to a value and a progress with `P`, or it fails with an excuse in a
session that has evolved. -/
def Ends (inv : Invocation) (start : Progress) (act : Act α) (p : Progress)
    (P : α → Progress → Prop) : Prop :=
  match act inv p with
  | .ok a q => P a q
  | .error h q => inv.Excuses start h ∧ Session.Evolves (inv.Fresh start) start.session q.session

/-- Performed anywhere behind `start`, the act advances and comes to a value with `Q`. -/
def Steady (inv : Invocation) (start : Progress) (M : Nat → Prop) (Q : α → Prop) (act : Act α) :
    Prop :=
  ∀ p, Advance inv start M p → Ends inv start act p fun a q => Advance inv start M q ∧ Q a

theorem bind_apply (x : Act α) (f : α → Act β) (inv : Invocation) (p : Progress) :
    (x >>= f) inv p = match x inv p with
      | .ok a q => f a inv q
      | .error h q => .error h q := by
  change EStateM.bind (x inv) (fun a => f a inv) p = _
  unfold EStateM.bind
  cases x inv p <;> rfl

theorem bind_of_ok {x : Act α} {f : α → Act β} {inv : Invocation} {p q : Progress} {a : α}
    (h : x inv p = .ok a q) : (x >>= f) inv p = f a inv q := by
  rw [bind_apply, h]

theorem bind_of_error {x : Act α} {f : α → Act β} {inv : Invocation} {p q : Progress} {halt : Halt}
    (h : x inv p = .error halt q) : (x >>= f) inv p = .error halt q := by
  rw [bind_apply, h]

/-- An act that comes to a value came to one in each of its parts. -/
theorem ok_of_bind {x : Act α} {f : α → Act β} {inv : Invocation} {p q : Progress} {b : β}
    (h : (x >>= f) inv p = .ok b q) : ∃ a p', x inv p = .ok a p' ∧ f a inv p' = .ok b q := by
  rw [bind_apply] at h
  cases hRun : x inv p with
  | ok a p' => exact ⟨a, p', rfl, by simpa only [hRun] using h⟩
  | error halt p' =>
      rw [hRun] at h
      cases h

theorem invocation_bind (f : Invocation → Act β) (inv : Invocation) (p : Progress) :
    (invocation >>= f) inv p = f inv inv p := rfl

theorem get_bind (f : Progress → Act β) (inv : Invocation) (p : Progress) :
    ((MonadState.get : Act Progress) >>= f) inv p = f p inv p := rfl

theorem world_bind (f : World → Act β) (inv : Invocation) (p : Progress) :
    (world >>= f) inv p = f p.session.world inv p := rfl

theorem rest_bind (f : List Char → Act β) (inv : Invocation) (p : Progress) :
    (rest >>= f) inv p = f (inv.script.rest p.pos) inv p := rfl

theorem Ends.congr {x y : Act α} {p : Progress} {P : α → Progress → Prop}
    (hy : Ends inv start y p P) (h : x inv p = y inv p) : Ends inv start x p P := by
  rw [Ends, h]
  exact hy

theorem Ends.of_ok {act : Act α} {p q : Progress} {a : α} {P : α → Progress → Prop}
    (h : act inv p = .ok a q) (hP : P a q) : Ends inv start act p P := by
  rw [Ends, h]
  exact hP

theorem Ends.of_error {act : Act α} {p q : Progress} {halt : Halt} {P : α → Progress → Prop}
    (h : act inv p = .error halt q) (hExcuse : inv.Excuses start halt)
    (hSession : Session.Evolves (inv.Fresh start) start.session q.session) :
    Ends inv start act p P := by
  rw [Ends, h]
  exact ⟨hExcuse, hSession⟩

theorem Ends.bind {x : Act α} {f : α → Act β} {p : Progress} {P : α → Progress → Prop}
    {P' : β → Progress → Prop} (hx : Ends inv start x p P)
    (hf : ∀ a q, P a q → Ends inv start (f a) q P') : Ends inv start (x >>= f) p P' := by
  unfold Ends at hx ⊢
  rw [bind_apply]
  cases hRun : x inv p with
  | ok a q =>
      rw [hRun] at hx
      exact hf a q hx
  | error h q =>
      rw [hRun] at hx
      exact hx

theorem Ends.mono {x : Act α} {p : Progress} {P P' : α → Progress → Prop}
    (hx : Ends inv start x p P) (h : ∀ a q, P a q → P' a q) : Ends inv start x p P' := by
  unfold Ends at hx ⊢
  split at hx
  · exact h _ _ hx
  · exact hx

theorem Ends.excused {start' : Progress} {x : Act α} {p : Progress} {P : α → Progress → Prop}
    (h : ∀ halt, inv.Excuses start halt → inv.Excuses start' halt)
    (hSession : ∀ s, Session.Evolves (inv.Fresh start) start.session s →
      Session.Evolves (inv.Fresh start') start'.session s) (hx : Ends inv start x p P) :
    Ends inv start' x p P := by
  unfold Ends at hx ⊢
  split at hx
  · exact hx
  · exact ⟨h _ hx.1, hSession _ hx.2⟩

namespace Steady

theorem pure {a : α} (ha : Q a) : Steady inv start M Q (Pure.pure a) := fun _ hp => ⟨hp, ha⟩

theorem bind {x : Act α} {f : α → Act β} (hx : Steady inv start M Q x)
    (hf : ∀ a, Q a → Steady inv start M R (f a)) : Steady inv start M R (x >>= f) :=
  fun p hp => (hx p hp).bind fun a q hq => hf a hq.2 q hq.1

/-- Going on with any value. -/
theorem andThen {x : Act α} {f : α → Act β} (hx : Steady inv start M (fun _ => True) x)
    (hf : ∀ a, Steady inv start M R (f a)) : Steady inv start M R (x >>= f) :=
  hx.bind fun a _ => hf a

theorem mono {Q' : α → Prop} {x : Act α} (hx : Steady inv start M Q x) (h : ∀ a, Q a → Q' a) :
    Steady inv start M Q' x :=
  fun p hp => (hx p hp).mono fun a _ hq => ⟨hq.1, h a hq.2⟩

theorem map {x : Act α} {f : α → β} (hx : Steady inv start M (fun _ => True) x) :
    Steady inv start M (fun _ => True) (f <$> x) :=
  hx.andThen fun _ => .pure True.intro

theorem mapM {f : α → Act β} {as : List α}
    (hf : ∀ a ∈ as, Steady inv start M (fun _ => True) (f a)) :
    Steady inv start M (fun _ => True) (as.mapM f) := by
  induction as with
  | nil => exact .pure True.intro
  | cons a as ih =>
      rw [List.mapM_cons]
      exact (hf a List.mem_cons_self).andThen fun _ =>
        (ih fun b hb => hf b (List.mem_cons_of_mem _ hb)).andThen fun _ => .pure True.intro

theorem get : Steady inv start M (fun _ => True) (MonadState.get : Act Progress) :=
  fun _ hp => ⟨hp, True.intro⟩

theorem invocation : Steady inv start M (· = inv) Act.invocation := fun _ hp => ⟨hp, rfl⟩

theorem world : Steady inv start M (fun w => w.clock = start.session.world.clock) Act.world :=
  fun _ hp => ⟨hp, hp.session.clock⟩

theorem onSession {f : Session → Session}
    (hf : ∀ s, Session.Evolves (inv.Fresh start) s (f s)) :
    Steady inv start M (fun _ => True) (Act.onSession f) :=
  fun p hp => ⟨⟨hp.session.trans (hf p.session), hp.pos, hp.calls⟩, True.intro⟩

/-- Changing nothing but the variables, the game and the log. -/
theorem onWorld {f : World → World}
    (hf : ∀ w, (f w).clock = w.clock ∧ (f w).entities = w.entities ∧ (f w).timers = w.timers) :
    Steady inv start M (fun _ => True) (Act.onWorld f) :=
  onSession fun s => .of_same (hf s.world).1 (hf s.world).2.1 (hf s.world).2.2

theorem self? : Steady inv start M (fun _ => True) Act.self? :=
  world.bind fun _ _ => invocation.bind fun _ _ => .pure True.intro

theorem ident : Steady inv start M (fun _ => True) Act.ident :=
  self?.andThen fun _ => .pure True.intro

theorem resolve? (word : String) : Steady inv start M (fun _ => True) (Act.resolve? word) :=
  world.bind fun _ _ => invocation.bind fun _ _ => .pure True.intro

theorem onSelf {f : Entity → Entity}
    (hf : ∀ e, (f e).script = e.script ∧ (f e).overriding = e.overriding) :
    Steady inv start M (fun _ => True) (Act.onSelf f) := by
  refine invocation.bind fun _ _ => world.bind fun _ _ => ?_
  dsimp only
  split
  · exact (onSession fun s => .modify _ hf s).andThen fun _ => .pure True.intro
  · exact .pure True.intro

end Steady

/-- The act does nothing but log. -/
def Logs (act : Act Unit) : Prop := ∀ inv p, ∃ log, act inv p = .ok () (p.read log p.pos)

namespace Logs

theorem pure : Logs (Pure.pure ()) := fun _ p => ⟨p.session.log, rfl⟩

theorem andThen {x y : Act Unit} (hx : Logs x) (hy : Logs y) : Logs (x >>= fun _ => y) := by
  intro inv p
  obtain ⟨log, hLog⟩ := hx inv p
  obtain ⟨log', hLog'⟩ := hy inv (p.read log p.pos)
  refine ⟨log', ?_⟩
  rw [bind_apply, hLog]
  exact hLog'

theorem diagnose (level : Level) (traced : Bool) (pos : Nat) (message : String) :
    Logs (Act.diagnose level traced pos message) := fun _ _ => ⟨_, rfl⟩

theorem warn (message : String) : Logs (Act.warn message) :=
  fun inv p => diagnose .warn true p.pos message inv p

theorem error (message : String) : Logs (Act.error message) :=
  fun inv p => diagnose .error true p.pos message inv p

theorem debug (message : String) : Logs (Act.debug message) :=
  fun inv p => diagnose .debug false p.pos message inv p

theorem emit (notes : List Note) : Logs (Act.emit notes) := by
  induction notes with
  | nil => exact pure
  | cons n notes ih => exact (diagnose _ _ _ _).andThen ih

theorem diagnoseToken (level : Level) (token message : String) :
    Logs (Act.diagnoseToken level token message) := by
  intro inv p
  change ∃ log, (if inv.suppressions.covers inv.script.name p.pos token then
    Act.diagnose .debug false p.pos ("suppressed: " ++ message)
    else Act.diagnose level true p.pos message : Act Unit) inv p = .ok () (p.read log p.pos)
  split
  · exact diagnose _ _ _ _ inv p
  · exact diagnose _ _ _ _ inv p

end Logs

/-- The act reads on in any script, without a fault, and does nothing else but log. -/
def Reads (act : Act α) : Prop :=
  ∀ inv p, ∃ a log pos, act inv p = .ok a (p.read log pos) ∧ inv.script.Onward p.pos pos

theorem take_eq (scan : Scan α) (inv : Invocation) (p : Progress) :
    ∃ log, take scan inv p = .ok scan.value (p.read log scan.stop.pos) := by
  obtain ⟨log, hLog⟩ := Logs.emit scan.notes inv p
  refine ⟨log, ?_⟩
  unfold take
  rw [bind_apply, hLog]
  rfl

theorem Reads.skipGaps (lines warned : Bool) : Reads (Act.skipGaps lines warned) := by
  intro inv p
  obtain ⟨log, hLog⟩ := take_eq ⟨(), (Script.skipGaps lines false p.pos (inv.script.rest p.pos)).1,
    if warned then (Script.skipGaps lines false p.pos (inv.script.rest p.pos)).2.toList.map
      (⟨·, "unexpected newline"⟩) else []⟩ inv p
  exact ⟨(), log, _, hLog, Script.onward_of_reaches (Script.skipGaps_reaches _ _ _ _)⟩

theorem rawWord_eq (inv : Invocation) (p : Progress) :
    ∃ log, Act.rawWord inv p =
      .ok (String.ofList (Script.nextWord p.pos (inv.script.rest p.pos)).value)
        (p.read log (Script.nextWord p.pos (inv.script.rest p.pos)).stop.pos) := by
  obtain ⟨log, hLog⟩ := take_eq (Script.nextWord p.pos (inv.script.rest p.pos)) inv p
  refine ⟨log, ?_⟩
  rw [Act.rawWord, get_bind, rest_bind, bind_apply, hLog]
  rfl

theorem Reads.rawWord : Reads Act.rawWord := by
  intro inv p
  obtain ⟨log, hLog⟩ := rawWord_eq inv p
  exact ⟨_, log, _, hLog, Script.onward_of_reaches (Script.nextWord_reaches _ _)⟩

theorem Reads.bind {x : Act α} {f : α → Act β} (hx : Reads x) (hf : ∀ a, Reads (f a)) :
    Reads (x >>= f) := by
  intro inv p
  obtain ⟨a, log, pos, hRun, hOn⟩ := hx inv p
  obtain ⟨b, log', pos', hRun', hOn'⟩ := hf a inv (p.read log pos)
  refine ⟨b, log', pos', ?_, hOn.trans hOn'⟩
  rw [bind_apply, hRun]
  exact hRun'

theorem Reads.pure (a : α) : Reads (Pure.pure a : Act α) :=
  fun _ p => ⟨a, p.session.log, p.pos, rfl, .refl _ _⟩

theorem Reads.rest : Reads Act.rest := fun _ p => ⟨_, p.session.log, p.pos, rfl, .refl _ _⟩

theorem Reads.hasMore : Reads Act.hasMore :=
  (skipGaps false false).bind fun _ => rest.bind fun _ => pure _

theorem Reads.flags : Reads Act.flags := by
  refine (skipGaps false false).bind fun _ => rest.bind fun cs => ?_
  split
  · split
    · exact rawWord.bind fun _ => pure _
    · exact pure _
  · exact pure _

/-- The line goes on only where text is left. -/
theorem hasMore_valid {p q : Progress} (h : Act.hasMore inv p = .ok true q) :
    inv.script.Valid q.pos := by
  obtain ⟨_, r, _, hRest⟩ := ok_of_bind h
  rw [rest_bind] at hRest
  obtain ⟨hMore, rfl⟩ := EStateM.Result.ok.inj hRest
  apply Script.valid_of_rest
  intro hNone
  rw [hNone] at hMore
  cases hMore

/-- What is left on a line begins at a place on the way to its end, where text can be read. -/
theorem skipLine_eq (inv : Invocation) (p : Progress) :
    ∃ left log pos, Act.skipLine inv p = .ok left (p.read log pos) ∧ inv.script.Onward p.pos pos ∧
      ∀ begin, left = some begin → inv.script.Onward p.pos begin ∧ inv.script.Valid begin := by
  obtain ⟨more, log, pos, hMore, hOn⟩ := Reads.hasMore inv p
  unfold Act.skipLine
  rw [bind_apply, hMore]
  cases more with
  | false =>
      exact ⟨none, log, pos, rfl, hOn, fun _ h => nomatch h⟩
  | true =>
      obtain ⟨log', hLog'⟩ := take_eq
        ⟨(), Script.lineEnd pos (inv.script.rest pos), []⟩ inv (p.read log pos)
      have hEnd : inv.script.Onward pos (Script.lineEnd pos (inv.script.rest pos)).pos :=
        Script.onward_of_reaches (Script.lineEnd_reaches _ _)
      refine ⟨some pos, log', _, ?_, hOn.trans hEnd, fun begin h => ?_⟩
      · change (take ⟨(), Script.lineEnd pos (inv.script.rest pos), []⟩ >>= fun _ =>
          Pure.pure (some pos)) inv (p.read log pos) = _
        rw [bind_apply, hLog']
        rfl
      · cases h
        exact ⟨hOn, hasMore_valid hMore⟩

theorem Reads.skipLine : Reads Act.skipLine := by
  intro inv p
  obtain ⟨left, log, pos, hRun, hOn, _⟩ := skipLine_eq inv p
  exact ⟨left, log, pos, hRun, hOn⟩

/-- A command word is read where text can be read; elsewhere there is a fault. -/
theorem command_cases (lines : Bool) (inv : Invocation) (p : Progress) :
    (∃ scan log, inv.script.commandAt lines p.pos = .ok scan ∧
      Act.command lines inv p = .ok (String.ofList scan.value) (p.read log scan.stop.pos)) ∨
    (Act.command lines inv p = .error (.fault .outsideText) p ∧ ¬ inv.script.Valid p.pos) := by
  rw [Act.command, invocation_bind, get_bind]
  cases hScan : inv.script.commandAt lines p.pos with
  | ok scan =>
      obtain ⟨log, hLog⟩ := take_eq scan inv p
      refine .inl ⟨scan, log, rfl, ?_⟩
      dsimp only
      rw [bind_apply, hLog]
      rfl
  | error f =>
      obtain ⟨rfl, hInvalid⟩ := Script.commandAt_error hScan
      exact .inr ⟨rfl, hInvalid⟩

theorem Logs.steady {act : Act Unit} (h : Logs act) : Steady inv start M (fun _ => True) act := by
  intro p hp
  obtain ⟨log, hLog⟩ := h inv p
  exact .of_ok hLog ⟨⟨hp.session.trans (.of_same rfl rfl rfl), hp.pos, hp.calls⟩, True.intro⟩

theorem Reads.steady {act : Act α} (h : Reads act) :
    Steady inv start (inv.script.Onward start.pos) (fun _ => True) act := by
  intro p hp
  obtain ⟨a, log, pos, hRun, hOn⟩ := h inv p
  exact .of_ok hRun
    ⟨⟨hp.session.trans (.of_same rfl rfl rfl), hp.pos.trans hOn, hp.calls⟩, True.intro⟩

namespace Steady

/-- Reading where no text is fails with an excuse. -/
theorem excuses_outsideText {p : Progress}
    (hp : Advance inv start (inv.script.Onward start.pos) p) (h : ¬ inv.script.Valid p.pos) :
    inv.Excuses start (.fault .outsideText) :=
  .inr ⟨rfl, fun hPlaced => (hp.pos.placed hPlaced).not_sealed h⟩

theorem command (lines : Bool) :
    Steady inv start (inv.script.Onward start.pos) (fun _ => True) (Act.command lines) := by
  intro p hp
  rcases command_cases lines inv p with ⟨scan, log, hScan, hRun⟩ | ⟨hRun, hInvalid⟩
  · exact .of_ok hRun ⟨⟨hp.session.trans (.of_same rfl rfl rfl),
      hp.pos.trans (Script.commandAt_onward hScan), hp.calls⟩, True.intro⟩
  · exact .of_error hRun (excuses_outsideText hp hInvalid) hp.session

theorem consume (word : String) :
    Steady inv start (inv.script.Onward start.pos) (fun _ => True) (Act.consume word) := by
  intro p hp
  change Ends inv start (Act.command true >>= fun found =>
    if found = word then Pure.pure true
    else modify (fun q => { q with pos := p.pos }) >>= fun _ => Pure.pure false) p _
  refine (command true p hp).bind fun found q hq => ?_
  split
  · exact ⟨hq.1, True.intro⟩
  · exact ⟨⟨hq.1.session, hp.pos, hq.1.calls⟩, True.intro⟩

theorem skipStatement :
    Steady inv start (inv.script.Onward start.pos) (fun _ => True) Act.skipStatement := by
  intro p hp
  cases hSkip : inv.script.skipStatement (inv.script.size + 1) p.pos with
  | ok passed =>
      have hRun : Act.skipStatement inv p = (Act.emit passed.2 >>= fun _ =>
          modify fun q => { q with pos := passed.1 } : Act Unit) inv p := by
        rw [Act.skipStatement, invocation_bind, get_bind, hSkip]
      refine .congr (((Logs.emit passed.2).steady p hp).bind fun _ q hq => ?_) hRun
      exact ⟨⟨hq.1.session, hp.pos.trans (Script.skipStatement_onward hSkip), hq.1.calls⟩,
        True.intro⟩
  | error f =>
      have hRun : Act.skipStatement inv p = .error (.fault f) p := by
        rw [Act.skipStatement, invocation_bind, get_bind, hSkip]
        rfl
      obtain ⟨rfl, hOpen⟩ := Script.skipStatement_error hSkip
      exact .of_error hRun (.inr ⟨rfl, fun hPlaced => hOpen (hp.pos.placed hPlaced)⟩) hp.session

end Steady

end Act

end EntityScript
