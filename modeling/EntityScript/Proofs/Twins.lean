import EntityScript.Proofs.Advance

/-! Two runs of one act side by side, in sessions that are related and in dispatches that may differ
in being dry and in what they suppress. The two take the same way: they come to the same value or the
same halt, at the same place, and each change that one makes the other makes as well. Taken with a
relation that only holds of equal sessions, this says what an act does to a single one. -/
namespace EntityScript

/-- Two computations come to the same value, with `Q` and in states related by `R`, or to the same
halt, in states related by `E`. -/
inductive Outcomes {σ α : Type} (E R : σ → σ → Prop) (Q : α → Prop) :
    EStateM.Result Halt σ α → EStateM.Result Halt σ α → Prop where
  | ok {a : α} {t t' : σ} (hValue : Q a) (hState : R t t') : Outcomes E R Q (.ok a t) (.ok a t')
  | error {h : Halt} {t t' : σ} (hState : E t t') : Outcomes E R Q (.error h t) (.error h t')

/-- The states are related in the same way at a value and at a halt. -/
abbrev Paired {σ α : Type} (R : σ → σ → Prop) (Q : α → Prop) :
    EStateM.Result Halt σ α → EStateM.Result Halt σ α → Prop := Outcomes R R Q

theorem Outcomes.mono {σ α : Type} {E E' R R' : σ → σ → Prop} {Q Q' : α → Prop}
    {x y : EStateM.Result Halt σ α} (h : Outcomes E R Q x y) (hHalt : ∀ t t', E t t' → E' t t')
    (hState : ∀ t t', R t t' → R' t t') (hValue : ∀ a, Q a → Q' a) : Outcomes E' R' Q' x y := by
  cases h with
  | ok hQ hR => exact .ok (hValue _ hQ) (hState _ _ hR)
  | error hE => exact .error (hHalt _ _ hE)

theorem Paired.mono {σ α : Type} {R R' : σ → σ → Prop} {Q : α → Prop}
    {x y : EStateM.Result Halt σ α} (h : Paired R Q x y) (hState : ∀ t t', R t t' → R' t t') :
    Paired R' Q x y :=
  Outcomes.mono h hState hState fun _ ha => ha

/-- A random number up to a bound that a name of the script asks for. -/
def Script.AsksFor (s : Script) (bound : Float) : Prop :=
  ∃ name, s.Names name ∧ isSystemName name = true ∧
    Act.SystemName.parse (name.toList.drop 1) = .random bound

/-- What looking at a session may change in it: the log, the queries that the game was asked, and the
random numbers that the script asks for. -/
inductive Session.Look (script : Script) (s : Session) : (Session → Session) → Prop where
  | write (level : Level) (topic : Topic) (message : String) :
      Look script s (Session.write level topic message)
  | ask (name : String) : Look script s fun s => { s with host := (s.host.ask name).2 }
  | draw {bound x : Float} {random : Generator} (hBound : ¬ bound ≤ 0)
      (hAsks : script.AsksFor bound)
      (hDraw : s.world.draw bound = .ok (x, { s.world with random })) :
      Look script s (Session.onWorld fun w => { w with random })

/-- What commands change in a session besides: each change is made for the entity that the script runs
for. -/
inductive Session.Deed (inv : Invocation) (s : Session) : (Session → Session) → Prop where
  | chance {x : Float} {random : Generator}
      (hDraw : s.world.draw 100 = .ok (x, { s.world with random })) :
      Deed inv s (Session.onWorld fun w => { w with random })
  | give (c : HostCommand) : Deed inv s fun s => { s with host := (s.host.give c).2 }
  | globals (f : Variables → Variables) :
      Deed inv s (Session.onWorld fun w => { w with globals := f w.globals })
  | modify {f : Entity → Entity}
      (hf : ∀ e, (f e).script = e.script ∧ (f e).overriding = e.overriding) :
      Deed inv s (Session.onWorld fun w => { w with entities := w.entities.modify inv.entity f })
  | free {p : Option Timer → Bool}
      (hp : ∀ slot, p slot = true → TimerSet.ownedBy inv.entity slot = true) :
      Deed inv s (Session.onWorld fun w => { w with timers := w.timers.free p })
  | start {t : Timer} (hOwner : t.owner = inv.entity) (hScript : t.script = inv.script)
      (hClock : t.start = s.world.clock) : Deed inv s (Session.startTimer t)
  | enqueue {e : QueuedEvent} (hSender : e.sender = some inv.entity)
      (hTarget : s.world.entities.contains e.target = true) :
      Deed inv s fun s => (s.enqueue e).2

/-- The same dispatch, dry or not, and with other suppressions. -/
def Invocation.under (inv : Invocation) (dry : Bool) (suppressions : Suppressions) : Invocation :=
  { inv with dry, suppressions }

/-- At one place in related sessions. -/
structure Progress.Beside (S : Session → Session → Prop) (p p' : Progress) : Prop where
  session : S p.session p'.session
  pos : p'.pos = p.pos
  calls : p'.calls = p.calls

theorem Progress.Beside.mono {S T : Session → Session → Prop} {p p' : Progress}
    (h : p.Beside S p') (hST : ∀ s s', S s s' → T s s') : p.Beside T p' :=
  ⟨hST _ _ h.session, h.pos, h.calls⟩

/-- One act after another, in sessions that the first leaves related by `S` and the second by `T`. -/
theorem Paired.act_bind {S T : Session → Session → Prop} {inv inv' : Invocation} {α β : Type}
    {Q : α → Prop} {R : β → Prop} {x : Act α} {f : α → Act β} {p p' : Progress}
    (hx : Paired (Progress.Beside S) Q (x inv p) (x inv' p')) (hST : ∀ s s', S s s' → T s s')
    (hf : ∀ a q q', Q a → q.Beside S q' →
      Paired (Progress.Beside T) R (f a inv q) (f a inv' q')) :
    Paired (Progress.Beside T) R ((x >>= f) inv p) ((x >>= f) inv' p') := by
  rw [Act.bind_apply, Act.bind_apply]
  generalize x inv p = r at hx ⊢
  generalize x inv' p' = r' at hx ⊢
  cases hx with
  | ok hValue hBeside => exact hf _ _ _ hValue hBeside
  | error hBeside => exact .error (hBeside.mono hST)

namespace Act

variable {S : Session → Session → Prop} {inv inv' : Invocation} {α β : Type} {Q : α → Prop}
  {R : β → Prop}

/-- Performed at one place in sessions related by `S`, the act takes the same way in both dispatches
and comes to a value with `Q`. -/
def Twin (S : Session → Session → Prop) (inv inv' : Invocation) (Q : α → Prop) (act : Act α) :
    Prop :=
  ∀ p p', p.Beside S p' → Paired (Progress.Beside S) Q (act inv p) (act inv' p')

namespace Twin

theorem pure {a : α} (ha : Q a) : Twin S inv inv' Q (Pure.pure a) := fun _ _ h => .ok ha h

theorem bind {x : Act α} {f : α → Act β} (hx : Twin S inv inv' Q x)
    (hf : ∀ a, Q a → Twin S inv inv' R (f a)) : Twin S inv inv' R (x >>= f) :=
  fun p p' hp => (hx p p' hp).act_bind (fun _ _ hS => hS) fun a q q' ha hq => hf a ha q q' hq

/-- Going on with any value. -/
theorem andThen {x : Act α} {f : α → Act β} (hx : Twin S inv inv' (fun _ => True) x)
    (hf : ∀ a, Twin S inv inv' R (f a)) : Twin S inv inv' R (x >>= f) :=
  hx.bind fun a _ => hf a

theorem mono {Q' : α → Prop} {x : Act α} (hx : Twin S inv inv' Q x) (h : ∀ a, Q a → Q' a) :
    Twin S inv inv' Q' x :=
  fun p p' hp => Outcomes.mono (hx p p' hp) (fun _ _ hR => hR) (fun _ _ hR => hR) h

theorem map {x : Act α} {f : α → β} (hx : Twin S inv inv' (fun _ => True) x) :
    Twin S inv inv' (fun _ => True) (f <$> x) :=
  hx.andThen fun _ => .pure True.intro

theorem mapM {f : α → Act β} {as : List α}
    (hf : ∀ a ∈ as, Twin S inv inv' (fun _ => True) (f a)) :
    Twin S inv inv' (fun _ => True) (as.mapM f) := by
  induction as with
  | nil => exact .pure True.intro
  | cons a as ih =>
      rw [List.mapM_cons]
      apply (hf a List.mem_cons_self).andThen
      intro _
      exact (ih fun b hb => hf b (List.mem_cons_of_mem _ hb)).andThen fun _ => .pure True.intro

/-- Going on with what the dispatch is about. -/
theorem invocation (hUnder : ∃ dry suppressions, inv' = inv.under dry suppressions)
    {f : Invocation → Act β} (hSame : ∀ dry suppressions, f (inv.under dry suppressions) = f inv)
    (hf : Twin S inv inv' R (f inv)) : Twin S inv inv' R (Act.invocation >>= f) := by
  intro p p' hp
  obtain ⟨dry, suppressions, rfl⟩ := hUnder
  rw [invocation_bind, invocation_bind, hSame]
  exact hf p p' hp

/-- An act that only reads off the same in both. -/
theorem of_reading {x : Act α}
    (h : ∀ p p', p.Beside S p' → ∃ a, Q a ∧ x inv p = .ok a p ∧ x inv' p' = .ok a p') :
    Twin S inv inv' Q x := by
  intro p p' hp
  obtain ⟨a, ha, hRun, hRun'⟩ := h p p' hp
  rw [hRun, hRun']
  exact .ok ha hp

/-- Going on with what stands at the current place. -/
theorem here {f : Progress → Act β} (hSame : ∀ p p', p.Beside S p' → f p' = f p)
    (hf : ∀ p, Twin S inv inv' R (f p)) :
    Twin S inv inv' R ((MonadState.get : Act Progress) >>= f) := by
  intro p p' hp
  rw [get_bind, get_bind, hSame p p' hp]
  exact hf p p p' hp

theorem moveAbout {f : Progress → Progress}
    (hf : ∀ p p', p.Beside S p' → (f p).Beside S (f p')) :
    Twin S inv inv' (fun _ => True) (modify f : Act Unit) :=
  fun p p' hp => .ok True.intro (hf p p' hp)

theorem jumpTo (pos : Nat) :
    Twin S inv inv' (fun _ => True) (modify fun p => { p with pos } : Act Unit) :=
  moveAbout fun _ _ hp => ⟨hp.session, rfl, hp.calls⟩

theorem onSession {f : Session → Session} (hf : ∀ s s', S s s' → S (f s) (f s')) :
    Twin S inv inv' (fun _ => True) (Act.onSession f) :=
  moveAbout fun _ _ hp => ⟨hf _ _ hp.session, hp.pos, hp.calls⟩

theorem fault (f : Fault) : Twin S inv inv' Q (Act.fault f) := fun _ _ hp => .error hp

end Twin

/-- The relation holds on while two dispatches look at the session: they see the same world, and the
game answers them the same. -/
structure Sees (S : Session → Session → Prop) (inv inv' : Invocation) : Prop where
  under : ∃ dry suppressions, inv' = inv.under dry suppressions
  world : ∀ {s s'}, S s s' → s'.world = s.world
  answers : ∀ {s s'}, S s s' → s'.host.record.answers = s.host.record.answers
  look : ∀ {s s' f}, S s s' → s.Look inv.script f → S (f s) (f s')

/-- Where the suppressions of the two differ, this shows in the log only. -/
structure Watches (S : Session → Session → Prop) (inv inv' : Invocation) : Prop
    extends Sees S inv inv' where
  token : ∀ level token message,
    Twin S inv inv' (fun _ => True) (diagnoseToken level token message)
  resumes : ∀ pos, inv'.suppressions.resumes inv.script.name pos =
    inv.suppressions.resumes inv.script.name pos

/-- The relation holds on while two dispatches do what commands do. -/
structure Serves (S : Session → Session → Prop) (inv inv' : Invocation) : Prop
    extends Watches S inv inv' where
  responses : ∀ {s s'}, S s s' → s'.host.record.responses = s.host.record.responses
  deed : ∀ {s s' f}, S s s' → s.Deed inv f → S (f s) (f s')

namespace Sees

theorem invocation (hS : Sees S inv inv') {f : Invocation → Act β}
    (hSame : ∀ dry suppressions, f (inv.under dry suppressions) = f inv)
    (hf : Twin S inv inv' R (f inv)) : Twin S inv inv' R (Act.invocation >>= f) :=
  .invocation hS.under hSame hf

theorem worldValue (hS : Sees S inv inv') : Twin S inv inv' (fun _ => True) Act.world :=
  .of_reading fun p p' hp => ⟨p.session.world, True.intro, rfl,
    congrArg (EStateM.Result.ok · p') (hS.world hp.session)⟩

theorem self? (hS : Sees S inv inv') : Twin S inv inv' (fun _ => True) Act.self? :=
  hS.worldValue.andThen fun _ => hS.invocation (fun _ _ => rfl) (.pure True.intro)

theorem ident (hS : Sees S inv inv') : Twin S inv inv' (fun _ => True) Act.ident :=
  hS.self?.andThen fun _ => .pure True.intro

theorem resolve? (hS : Sees S inv inv') (word : String) :
    Twin S inv inv' (fun _ => True) (Act.resolve? word) :=
  hS.worldValue.andThen fun _ => hS.invocation (fun _ _ => rfl) (.pure True.intro)

theorem onLook (hS : Sees S inv inv') {f : Session → Session}
    (hf : ∀ s : Session, s.Look inv.script f) : Twin S inv inv' (fun _ => True) (onSession f) :=
  .onSession fun s _ hRel => hS.look hRel (hf s)

theorem write (hS : Sees S inv inv') (level : Level) (topic : Topic) (message : String) :
    Twin S inv inv' (fun _ => True) (onSession (Session.write level topic message)) :=
  hS.onLook fun _ => .write level topic message

theorem diagnose (hS : Sees S inv inv') (level : Level) (traced : Bool) (pos : Nat)
    (message : String) : Twin S inv inv' (fun _ => True) (Act.diagnose level traced pos message) := by
  apply hS.invocation (fun _ _ => rfl)
  apply hS.ident.andThen
  intro ident
  apply Twin.here
  · intro p p' hp
    simp only [hp.calls]
  · exact fun _ => hS.write _ _ _

theorem warn (hS : Sees S inv inv') (message : String) :
    Twin S inv inv' (fun _ => True) (Act.warn message) :=
  .here (fun _ _ hp => by rw [hp.pos]) fun _ => hS.diagnose _ _ _ _

theorem error (hS : Sees S inv inv') (message : String) :
    Twin S inv inv' (fun _ => True) (Act.error message) :=
  .here (fun _ _ hp => by rw [hp.pos]) fun _ => hS.diagnose _ _ _ _

theorem debug (hS : Sees S inv inv') (message : String) :
    Twin S inv inv' (fun _ => True) (Act.debug message) :=
  .here (fun _ _ hp => by rw [hp.pos]) fun _ => hS.diagnose _ _ _ _

theorem emit (hS : Sees S inv inv') (notes : List Note) :
    Twin S inv inv' (fun _ => True) (Act.emit notes) := by
  induction notes with
  | nil => exact .pure True.intro
  | cons n notes ih => exact (hS.diagnose _ _ _ _).andThen fun _ => ih

theorem take (hS : Sees S inv inv') (scan : Scan α) :
    Twin S inv inv' (· = scan.value) (Act.take scan) :=
  (hS.emit _).andThen fun _ => (Twin.jumpTo _).andThen fun _ => .pure rfl

theorem rest (hS : Sees S inv inv') : Twin S inv inv' (· <:+ inv.script.text) Act.rest := by
  obtain ⟨dry, suppressions, rfl⟩ := hS.under
  exact .of_reading fun p p' hp => ⟨inv.script.rest p.pos, inv.script.rest_suffix _, rfl,
    congrArg (fun pos => EStateM.Result.ok (inv.script.rest pos) p') hp.pos⟩

theorem skipGaps (hS : Sees S inv inv') (lines warned : Bool) :
    Twin S inv inv' (fun _ => True) (Act.skipGaps lines warned) := by
  apply Twin.here
  · intro p p' hp
    rw [hp.pos]
  · exact fun _ => hS.rest.bind fun _ _ => (hS.take _).mono fun _ _ => True.intro

theorem hasMore (hS : Sees S inv inv') : Twin S inv inv' (fun _ => True) Act.hasMore :=
  (hS.skipGaps _ _).andThen fun _ => hS.rest.bind fun _ _ => .pure True.intro

theorem command (hS : Sees S inv inv') (lines : Bool) :
    Twin S inv inv' (fun _ => True) (Act.command lines) := by
  apply hS.invocation (fun _ _ => rfl)
  apply Twin.here
  · intro p p' hp
    rw [hp.pos]
  · intro p
    split
    · exact (hS.take _).bind fun _ _ => .pure True.intro
    · exact .fault _

/-- A word that is read is one that the script writes. -/
theorem rawWord (hS : Sees S inv inv') : Twin S inv inv' inv.script.Writes Act.rawWord := by
  apply Twin.here
  · intro p p' hp
    rw [hp.pos]
  · intro p
    apply hS.rest.bind
    intro cs hText
    apply (hS.take _).bind
    rintro _ rfl
    exact .pure (.argument p.pos hText)

theorem skipLine (hS : Sees S inv inv') : Twin S inv inv' (fun _ => True) Act.skipLine := by
  apply hS.hasMore.andThen
  intro more
  split
  · apply Twin.here
    · intro p p' hp
      rw [hp.pos]
    · exact fun _ => hS.rest.bind fun _ _ => (hS.take _).bind fun _ _ => .pure True.intro
  · exact .pure True.intro

theorem flags (hS : Sees S inv inv') : Twin S inv inv' (fun _ => True) Act.flags := by
  apply (hS.skipGaps _ _).andThen
  intro _
  apply hS.rest.bind
  intro cs _
  split
  · split
    · exact hS.rawWord.bind fun _ _ => .pure True.intro
    · exact .pure True.intro
  · exact .pure True.intro

theorem consume (hS : Sees S inv inv') (word : String) :
    Twin S inv inv' (fun _ => True) (Act.consume word) := by
  apply Twin.here
  · intro p p' hp
    rw [hp.pos]
  · intro p
    apply (hS.command _).andThen
    intro found
    split
    · exact .pure True.intro
    · exact (Twin.jumpTo _).andThen fun _ => .pure True.intro

theorem skipStatement (hS : Sees S inv inv') :
    Twin S inv inv' (fun _ => True) Act.skipStatement := by
  apply hS.invocation (fun _ _ => rfl)
  apply Twin.here
  · intro p p' hp
    rw [hp.pos]
  · intro p
    dsimp only
    split
    · exact (hS.emit _).andThen fun _ => Twin.jumpTo _
    · exact .fault _

end Sees

/-- With the same suppressions two dispatches report a token the same. -/
theorem Sees.watches {dry : Bool} (hS : Sees S inv (inv.under dry inv.suppressions)) :
    Watches S inv (inv.under dry inv.suppressions) := by
  refine ⟨hS, fun level token message p p' hp => ?_, fun _ => rfl⟩
  have hTwin (level : Level) (traced : Bool) (message : String) :=
    hS.diagnose level traced p.pos message p p' hp
  unfold diagnoseToken
  rw [invocation_bind, invocation_bind, get_bind, get_bind]
  rw [hp.pos]
  by_cases hCovers : inv.suppressions.covers inv.script.name p.pos token = true
  · simp only [Invocation.under, hCovers, if_true]
    exact hTwin _ _ _
  · simp only [Invocation.under, hCovers]
    exact hTwin _ _ _

end Act

end EntityScript
