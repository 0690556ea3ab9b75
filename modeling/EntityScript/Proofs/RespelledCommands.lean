import EntityScript.Proofs.Arguments
import EntityScript.Proofs.Respelling
import EntityScript.Proofs.TwinCommands

/-! Commands in two spellings of a script. As long as a command passes over no word with two spellings, it
reads the same words in both texts and does the same. -/
namespace EntityScript

namespace Act

open Progress (Alike SameWorld Aligned)
open Script (Clear)

variable {K : List Call → List Call → Prop} {ps : List Part} {inv : Invocation} {name : String}
  {α β : Type} {p p' : Progress}

/-- The offset where an act leaves off. -/
def left : EStateM.Result Halt Progress α → Nat
  | .ok _ q => q.pos
  | .error _ q => q.pos

/-- Where an act leaves off does not depend on its value. -/
theorem left_discard (act : Act α) (inv : Invocation) (p : Progress) :
    left (Functor.discard act inv p) = left (act inv p) := by
  change left ((act >>= fun _ => Pure.pure ()) inv p) = _
  rw [bind_apply]
  cases act inv p <;> rfl

theorem skipGaps_eq (lines : Bool) (inv : Invocation) (p : Progress) :
    ∃ log, Act.skipGaps lines false inv p =
      .ok () (p.read log (Script.skipGaps lines false p.pos (inv.script.rest p.pos)).1.pos) :=
  take_eq ⟨(), (Script.skipGaps lines false p.pos (inv.script.rest p.pos)).1, []⟩ inv p

/-- Looking behind the gaps for something that both spellings have. -/
theorem ahead_keeps (hSpelling : Script.Respelling ps) {g : List Char → Bool}
    (hg : ∀ {free rest} e, Script.WellSpelled free rest →
      g (Script.spell e rest) = g (Script.spell .original rest)) :
    Keeps K ps inv name (do Act.skipGaps false false; return g (← rest)) := by
  intro p p' hp
  obtain ⟨stop, behind, _, hStop, hBehind, _, hGaps⟩ := hSpelling.skipGaps name false hp.pos
  have hRun (e : Edition) (q : Progress) (hq : q.pos = Edition.pick p.pos p'.pos e) :
      ∃ log, (do Act.skipGaps false false; return g (← rest) : Act Bool)
        (inv.within (Script.edition name ps e)) q =
          .ok (g (Script.spell .original behind)) (q.read log (stop e)) := by
    obtain ⟨log, hSkip⟩ := skipGaps_eq false (inv.within (Script.edition name ps e)) q
    obtain ⟨hEnd, hRest⟩ := hGaps e
    rw [← hq] at hEnd
    refine ⟨log, ?_⟩
    rw [bind_apply, hSkip]
    dsimp only [Invocation.within] at hEnd ⊢
    rw [hEnd, ← hg e hBehind, ← hRest]
    rfl
  obtain ⟨log, hOriginal⟩ := hRun .original p rfl
  obtain ⟨log', hRespelled⟩ := hRun .respelled p' rfl
  rw [hOriginal, hRespelled]
  exact .ok True.intro (hp.move log log' hStop)

theorem hasMore_keeps (hSpelling : Script.Respelling ps) : Keeps K ps inv name Act.hasMore :=
  ahead_keeps hSpelling (g := fun cs => cs.head?.any (· ≠ '\n')) fun e h => h.more e

/-- Flags are read where they follow. -/
theorem flags_eq : Act.flags = (do
    if ← (do Act.skipGaps false false; return Script.flagged (← rest)) then
      return String.ofList ((← Act.rawWord).toList.drop 1)
    else return "") := by
  simp only [bind_assoc, pure_bind]
  unfold Act.flags
  congr 1
  funext _
  congr 1
  funext cs
  unfold Script.flagged
  split
  · rfl
  · rw [if_neg (by simp)]

/-- Performed in both spellings of a script, from the same part of it, the acts come to the same and stop
at the same part, if no word with two spellings begins on the way that `reads` takes. -/
structure TracksBy (K : List Call → List Call → Prop) (ps : List Part) (inv : Invocation) (name : String)
    (act : Act α) (reads : Act β) : Prop where
  onward : ∀ p, min p.pos (Script.edition name ps .original).size ≤
    left (reads (inv.within (Script.edition name ps .original)) p)
  agree : ∀ p p', Aligned K ps p p' →
    Clear ps p.pos (left (reads (inv.within (Script.edition name ps .original)) p)) →
      Outcomes (SameWorld K) (Aligned K ps) (fun _ => True)
        (act (inv.within (Script.edition name ps .original)) p)
        (act (inv.within (Script.edition name ps .respelled)) p')

/-- The act comes to the same, if it passes over no word with two spellings. -/
abbrev Tracks (K : List Call → List Call → Prop) (ps : List Part) (inv : Invocation) (name : String)
    (act : Act α) : Prop := TracksBy K ps inv name act act

/-- What does not depend on the script stays at its place. -/
theorem left_uniform {s s' : Script} {act : Act α} (h : ∀ {K P}, Uniform K P inv s s' act)
    (p : Progress) : left (act (inv.within s) p) = p.pos := by
  have hSame := h (K := fun _ _ => True) (P := fun pos _ => pos = p.pos) p p ⟨rfl, rfl, True.intro, rfl⟩
  generalize act (inv.within s) p = r at hSame ⊢
  generalize act (inv.within s') p = r' at hSame
  cases hSame with
  | ok _ hState => exact hState.pos
  | error hState => exact hState.pos

/-- What is left of a line is passed over. -/
theorem skipLine_more {inv : Invocation} {log : Array LogLine} {pos : Nat}
    (hMore : Act.hasMore inv p = .ok true (p.read log pos)) : ∃ log', Act.skipLine inv p =
      .ok (some pos) (p.read log' (Script.lineEnd pos (inv.script.rest pos)).pos) := by
  obtain ⟨log', hTake⟩ := take_eq ⟨(), Script.lineEnd pos (inv.script.rest pos), []⟩ inv (p.read log pos)
  refine ⟨log', ?_⟩
  unfold Act.skipLine
  rw [bind_apply, hMore]
  change (take ⟨(), Script.lineEnd pos (inv.script.rest pos), []⟩ >>= fun _ => Pure.pure (some pos)) inv
    (p.read log pos) = _
  rw [bind_apply, hTake]
  rfl

variable (inv name) in
/-- What is left of a line begins and ends at the same part in both spellings. -/
theorem skipLine_outcomes (hSpelling : Script.Respelling ps) (hp : Aligned K ps p p') :
    ∃ rest rest' q q', Act.skipLine (inv.within (Script.edition name ps .original)) p = .ok rest q ∧
      Act.skipLine (inv.within (Script.edition name ps .respelled)) p' = .ok rest' q' ∧
      (rest' = none ↔ rest = none) ∧ Aligned K ps q q' := by
  have hKeeps : Keeps K ps inv name Act.hasMore := hasMore_keeps hSpelling
  have hMore := hKeeps p p' hp
  obtain ⟨more, log, pos, hRun, _⟩ := Reads.hasMore (inv.within (Script.edition name ps .original)) p
  obtain ⟨more', log', pos', hRun', _⟩ :=
    Reads.hasMore (inv.within (Script.edition name ps .respelled)) p'
  rw [hRun, hRun'] at hMore
  cases hMore with
  | ok _ hState =>
      cases more with
      | false =>
          have hNone {inv : Invocation} {p : Progress} {log : Array LogLine} {pos : Nat}
              (h : Act.hasMore inv p = .ok false (p.read log pos)) :
              Act.skipLine inv p = .ok none (p.read log pos) := by
            unfold Act.skipLine
            rw [bind_apply, h]
            rfl
          exact ⟨none, none, _, _, hNone hRun, hNone hRun', Iff.rfl, hState⟩
      | true =>
          obtain ⟨_, hLine⟩ := skipLine_more hRun
          obtain ⟨_, hLine'⟩ := skipLine_more hRun'
          exact ⟨some pos, some pos', _, _, hLine, hLine', by simp,
            hp.move _ _ (hSpelling.lineEnd name hState.pos)⟩

/-- Going on behind the line; where it began matters to nothing but a script. -/
theorem skipLine_keeps (hSpelling : Script.Respelling ps) {f : Option Nat → Act β}
    (hNone : Keeps K ps inv name (f none))
    (hSome : ∀ {K P} pos pos', Agree (Alike K P) (Alike K P) inv (Script.edition name ps .original)
      (Script.edition name ps .respelled) (f (some pos)) (f (some pos'))) :
    Keeps K ps inv name (Act.skipLine >>= f) := by
  intro p p' hp
  obtain ⟨rest, rest', q, q', hRun, hRun', hBoth, hState⟩ :=
    skipLine_outcomes inv name hSpelling hp
  rw [bind_apply, bind_apply, hRun, hRun']
  cases rest with
  | none =>
      obtain rfl := hBoth.mpr rfl
      exact hNone _ _ hState
  | some start =>
      cases rest' with
      | none => exact absurd (hBoth.mp rfl) nofun
      | some start' => exact (hSome start start').sameWorld _ _ hState

namespace TracksBy

variable {γ : Type}

/-- One act after another. -/
theorem bind (hSpelling : Script.Respelling ps) {x : Act α} {f : α → Act β} {g : α → Act γ}
    (hx : Tracks K ps inv name x) (hf : ∀ a, TracksBy K ps inv name (f a) (g a)) :
    TracksBy K ps inv name (x >>= f) (x >>= g) := by
  constructor
  · intro p
    have hFirst := hx.onward p
    rw [bind_apply]
    generalize x (inv.within (Script.edition name ps .original)) p = r at hFirst ⊢
    cases r with
    | error h q => exact hFirst
    | ok a q =>
        have hSecond := (hf a).onward q
        simp only [left] at hFirst hSecond ⊢
        omega
  · intro p p' hp hClear
    have hFirst := hx.onward p
    have hBoth := hx.agree p p' hp
    rw [bind_apply] at hClear
    rw [bind_apply, bind_apply]
    generalize x (inv.within (Script.edition name ps .original)) p = r at hFirst hBoth hClear ⊢
    generalize x (inv.within (Script.edition name ps .respelled)) p' = r' at hBoth ⊢
    cases r with
    | error h q =>
        cases hBoth hClear with
        | error hState => exact .error hState
    | ok a q =>
        -- The second act reads on from the place where the first leaves off.
        have hSecond := (hf a).onward q
        cases hBoth (hClear.mono hSpelling.words (Nat.min_le_left _ _) hSecond) with
        | ok _ hState =>
            exact (hf a).agree _ _ hState (hClear.mono hSpelling.words hFirst (Nat.min_le_left _ _))

/-- What stops at the same part whatever is passed over. -/
theorem keeps {act : Act α} (h : Keeps K ps inv name act) :
    TracksBy K ps inv name act (Pure.pure ()) :=
  ⟨fun _ => Nat.min_le_left _ _, fun p p' hp _ => h p p' hp⟩

/-- What does not depend on the script. -/
theorem uniform {act : Act α} (h : ∀ {K P}, Uniform K P inv (Script.edition name ps .original)
    (Script.edition name ps .respelled) act) : TracksBy K ps inv name act (Pure.pure ()) :=
  keeps h.sameWorld

theorem discard {act : Act α} {reads : Act β} (h : TracksBy K ps inv name act reads) :
    TracksBy K ps inv name act (Functor.discard reads) := by
  refine ⟨fun p => ?_, fun p p' hp hClear => h.agree p p' hp ?_⟩
  · rw [left_discard]
    exact h.onward p
  · rwa [left_discard] at hClear

end TracksBy

namespace Tracks

/-- What does not depend on the script. -/
theorem uniform {act : Act α} (h : ∀ {K P}, Uniform K P inv (Script.edition name ps .original)
    (Script.edition name ps .respelled) act) : Tracks K ps inv name act := by
  constructor
  · intro p
    rw [left_uniform h]
    exact Nat.min_le_left _ _
  · exact fun p p' hp _ => h.sameWorld p p' hp

/-- What stops at the same part whatever is passed over. -/
theorem keeps {act : Act α} (h : Keeps K ps inv name act) (hReads : Reads act) :
    Tracks K ps inv name act := by
  refine ⟨fun p => ?_, fun p p' hp _ => h p p' hp⟩
  obtain ⟨a, log, pos, hRun, hOn⟩ := hReads (inv.within (Script.edition name ps .original)) p
  rw [hRun]
  exact hOn.le

theorem pure (a : α) : Tracks K ps inv name (Pure.pure a) := uniform (.pure a)

theorem rawWord (hSpelling : Script.Respelling ps) : Tracks K ps inv name Act.rawWord := by
  constructor
  · intro p
    obtain ⟨a, log, pos, hRun, hOn⟩ := Reads.rawWord (inv.within (Script.edition name ps .original)) p
    rw [hRun]
    exact hOn.le
  · intro p p' hp hClear
    obtain ⟨value, stop, hStop, _, hValue, hRead⟩ := hSpelling.nextWord name hp.pos
    obtain ⟨hWord, hEnd⟩ := hRead .original
    obtain ⟨hWord', hEnd'⟩ := hRead .respelled
    obtain ⟨log, hRun⟩ := rawWord_eq (inv.within (Script.edition name ps .original)) p
    obtain ⟨log', hRun'⟩ := rawWord_eq (inv.within (Script.edition name ps .respelled)) p'
    dsimp only [Invocation.within, Edition.pick] at hRun hRun' hWord hEnd hWord' hEnd' hValue
    rw [hWord, hEnd] at hRun
    rw [hWord', hEnd'] at hRun'
    dsimp only [Invocation.within] at hClear ⊢
    rw [hRun] at hClear ⊢
    rw [hRun', hValue hClear]
    exact .ok True.intro (hp.move log log' hStop)

theorem flags (hSpelling : Script.Respelling ps) : Tracks K ps inv name Act.flags := by
  rw [flags_eq]
  have hAhead : Tracks K ps inv name (do Act.skipGaps false false; return Script.flagged (← rest)) :=
    keeps (ahead_keeps hSpelling fun e h => h.flagged e)
      ((Reads.skipGaps false false).bind fun _ => Reads.rest.bind fun _ => .pure _)
  refine hAhead.bind hSpelling fun found => ?_
  split
  · exact (rawWord hSpelling).bind hSpelling fun _ => pure _
  · exact pure _

theorem word (hSpelling : Script.Respelling ps) : Tracks K ps inv name Act.word :=
  (rawWord hSpelling).bind hSpelling fun w => uniform (.expand w)

theorem float (hSpelling : Script.Respelling ps) : Tracks K ps inv name Act.float :=
  (word hSpelling).bind hSpelling fun w => uniform (.readFloat w)

theorem bool (hSpelling : Script.Respelling ps) : Tracks K ps inv name Act.bool :=
  (word hSpelling).bind hSpelling fun _ => pure _

theorem hasMore (hSpelling : Script.Respelling ps) : Tracks K ps inv name Act.hasMore :=
  keeps (hasMore_keeps hSpelling) .hasMore

end Tracks

namespace Agree

variable {P : Nat → Nat → Prop} {s s' : Script}

theorem warnAt (token message : String) : Uniform K P inv s s' (Act.warnAt token message) :=
  .logs (.diagnoseToken _ _ _) (.diagnoseToken _ _ _)

theorem writable? (word : String) : Uniform K P inv s s' (Command.writable? word) := by
  unfold Command.writable?
  split
  · exact (warnAt _ _).bind fun _ => .pure _
  · split
    · exact .pure _
    · exact (warnAt _ _).bind fun _ => .pure _

theorem operandValue (word : String) (type : VarType) :
    Uniform K P inv s s' (Command.operandValue word type) := by
  unfold Command.operandValue
  split
  · exact readVar _
  · split
    · exact .pure _
    · exact .pure _

theorem assign (key : VarKey) (v : Value) : Uniform K P inv s s' (Command.assign key v) := by
  refine (writeVar _ _).bind fun _ => ?_
  split
  · exact .pure _
  · exact .pure _

theorem update (key : VarKey) (op : Arithmetic) (operand : Value) :
    Uniform K P inv s s' (Command.update key op operand) := by
  unfold Command.update
  dsimp only
  split
  · exact (warn _ _).bind fun _ => .pure _
  · split
    · exact (warn _ _).bind fun _ => .pure _
    · exact (readKey _).bind fun _ => assign _ _

/-- Changing the session in a way that shows in no script. -/
theorem onSession {f : Session → Session}
    (hf : ∀ t t', t'.world.bare = t.world.bare → t'.host = t.host →
      (f t').world.bare = (f t).world.bare ∧ (f t').host = (f t).host) :
    Uniform K P inv s s' (Act.onSession f) := by
  intro p p' hp
  obtain ⟨hWorld, hHost⟩ := hf _ _ hp.world hp.host
  exact .ok True.intro ⟨hWorld, hHost, hp.calls, hp.pos⟩

/-- Changing the entity and telling whether it is there. -/
theorem markSelf {f : Entity → Entity} (hf : ∀ e, (f e).bare = f e.bare) :
    Uniform K P inv s s' (do if ← Act.onSelf f then return Reply.success else return .failed) := by
  refine (onSelf hf).bind fun live => ?_
  split
  · exact .pure _
  · exact .pure _

theorem destroy (id : EntityId) :
    Uniform K P inv s s' (Act.onSession fun t => (t.destroy id).2) := by
  apply onSession
  intro t t' hWorld hHost
  have hGone (w : World) : World.bare { w with
      entities := w.entities.remove id, timers := w.timers.clearFor id
      queue := w.queue.clearFor id } = { w.bare with
        entities := w.bare.entities.remove id, timers := w.bare.timers.clearFor id
        queue := w.bare.queue.clearFor id } := by
    have hTimers := w.timers.free_bare (TimerSet.ownedBy_bare id)
    simp only [World.bare, EntityTable.remove_modifyAll]
    exact congrArg (fun timers => { w with
      entities := (w.entities.remove id).modifyAll Entity.bare, timers
      queue := w.queue.clearFor id }) hTimers.symm
  have hLive := congrArg (fun w : World => w.entities.get? id) hWorld
  simp only [World.bare, EntityTable.get?_modifyAll] at hLive
  unfold Session.destroy
  cases h : t.world.entities.get? id with
  | none =>
      have hNone : t'.world.entities.get? id = none := by simpa [h] using hLive
      rw [hNone]
      exact ⟨hWorld, hHost⟩
  | some e =>
      obtain ⟨e', hSome, _⟩ : ∃ e', t'.world.entities.get? id = some e' ∧ e'.bare = e.bare := by
        simpa [h] using hLive
      rw [hSome]
      refine ⟨?_, congrArg (·.noteDestroyed id) hHost⟩
      change World.bare { t'.world with
        entities := t'.world.entities.remove id, timers := t'.world.timers.clearFor id
        queue := t'.world.queue.clearFor id } = World.bare { t.world with
        entities := t.world.entities.remove id, timers := t.world.timers.clearFor id
        queue := t.world.queue.clearFor id }
      rw [hGone, hGone, hWorld]

theorem debug (message : String) : Uniform K P inv s s' (Act.debug message) :=
  .logs (.debug _) (.debug _)

/-- Timers that differ in nothing but their lines. -/
theorem beginTimer {t t' : Timer} (h : t'.bare = t.bare) :
    Agree (Alike K P) (Alike K P) inv s s' (Act.onSession (Session.startTimer t))
      (Act.onSession (Session.startTimer t')) := by
  intro p p' hp
  have hStarted (w : World) (t : Timer) : World.bare { w with timers := w.timers.start t } =
      { w.bare with timers := w.bare.timers.start t.bare } :=
    congrArg (fun timers => { w with entities := w.entities.modifyAll Entity.bare, timers })
      (w.timers.start_bare t).symm
  refine .ok True.intro ⟨?_, hp.host, hp.calls, hp.pos⟩
  change World.bare { p'.session.world with timers := p'.session.world.timers.start t' } =
    World.bare { p.session.world with timers := p.session.world.timers.start t }
  rw [hStarted, hStarted, hp.world, h]

theorem stopAll : Uniform K P inv s s' Command.stopAll := by
  apply Agree.invocation
  apply Agree.world
  · intro w
    simp only [World.bare, TimerSet.countFor_bare]
  · intro w
    have hClear (w : World) : World.bare { w with timers := w.timers.clearFor inv.entity } =
        { w.bare with timers := w.bare.timers.clearFor inv.entity } :=
      congrArg (fun timers => { w with entities := w.entities.modifyAll Entity.bare, timers })
        (w.timers.free_bare (TimerSet.ownedBy_bare inv.entity)).symm
    exact (onWorld (g := fun w => { w with timers := w.timers.clearFor inv.entity }) hClear hClear).bind
      fun _ => (debug _).bind fun _ => .pure _

theorem stopTimer (name : String) : Uniform K P inv s s'
    (Act.onWorld fun w => { w with timers := w.timers.stop inv.entity name }) := by
  have hStop (w : World) : World.bare { w with timers := w.timers.stop inv.entity name } =
      { w.bare with timers := w.bare.timers.stop inv.entity name } :=
    congrArg (fun timers => { w with entities := w.entities.modifyAll Entity.bare, timers })
      (w.timers.free_bare (TimerSet.holds_bare inv.entity name)).symm
  exact onWorld (g := fun w => { w with timers := w.timers.stop inv.entity name }) hStop hStop

/-- Queueing the same events. -/
theorem enqueueAll (this : EntityId) (event : EventName) (parameters : Parameters)
    (targets : List EntityId) {t t' : Session} (hWorld : t'.world.bare = t.world.bare)
    (hHost : t'.host = t.host) :
    (Command.enqueueAll this event parameters targets t').1 =
        (Command.enqueueAll this event parameters targets t).1 ∧
      (Command.enqueueAll this event parameters targets t').2.world.bare =
        (Command.enqueueAll this event parameters targets t).2.world.bare ∧
      (Command.enqueueAll this event parameters targets t').2.host =
        (Command.enqueueAll this event parameters targets t).2.host := by
  induction targets generalizing t t' with
  | nil => exact ⟨rfl, hWorld, hHost⟩
  | cons target targets ih =>
      let e : QueuedEvent := ⟨some this, target, event, parameters⟩
      have hQueue : t'.world.bare.queue = t.world.bare.queue := by rw [hWorld]
      change t'.world.queue = t.world.queue at hQueue
      have hTaken : (t'.enqueue e).1 = (t.enqueue e).1 := by
        unfold Session.enqueue
        rw [hQueue]
      have hNext : (t'.enqueue e).2.world.bare = (t.enqueue e).2.world.bare := by
        rw [Session.enqueue_world, Session.enqueue_world]
        exact congrArg (fun w : World => { w with queue := (w.queue.push e).2 }) hWorld
      have hGame : (t'.enqueue e).2.host = (t.enqueue e).2.host := by
        rw [Session.enqueue_host, Session.enqueue_host, hHost]
      obtain ⟨hCount, hRest⟩ := ih hNext hGame
      simp only [Command.enqueueAll]
      change (if (t'.enqueue e).1 then _ else _) = (if (t.enqueue e).1 then _ else _) ∧ _
      rw [hTaken, hCount]
      exact ⟨rfl, hRest⟩

theorem receivers (entities : EntityTable) (this : EntityId) (kinds : List Capability)
    (audience : Audience) : Command.receivers (entities.modifyAll Entity.bare) this kinds audience =
      Command.receivers entities this kinds audience := by
  have hIncludes (sender : Option Entity) (e : Entity) :
      audience.includes (sender.map Entity.bare) e.bare = audience.includes sender e := by
    cases audience with
    | group name => rfl
    | radius r => cases sender <;> rfl
  unfold Command.receivers
  rw [EntityTable.get?_modifyAll]
  simp only [EntityTable.modifyAll, List.filter_map, List.map_map]
  refine congrArg _ (List.filter_congr fun m _ => ?_)
  simp only [Function.comp, hIncludes]
  rfl

theorem showLocals : Uniform K P inv s s' Command.showLocals :=
  .logs (fun _ _ => ⟨_, rfl⟩) fun _ _ => ⟨_, rfl⟩

theorem showGlobals : Uniform K P inv s s' Command.showGlobals :=
  .logs (fun _ _ => ⟨_, rfl⟩) fun _ _ => ⟨_, rfl⟩

theorem listings {c : Command} (h : c ∈ Command.listings) : Uniform K P inv s s' c.run := by
  simp only [Command.listings, List.mem_cons, List.not_mem_nil, or_false] at h
  rcases h with rfl | rfl | rfl
  · exact showLocals.bind fun _ => .pure _
  · exact showGlobals.bind fun _ => .pure _
  · exact (showGlobals.bind fun _ => showLocals).bind fun _ => .pure _

end Agree

namespace Tracks

variable (hSpelling : Script.Respelling ps)

include hSpelling

theorem setElement : Tracks K ps inv name Command.setElement := by
  refine (word hSpelling).bind hSpelling fun target => ?_
  refine (word hSpelling).bind hSpelling fun index => ?_
  refine (word hSpelling).bind hSpelling fun list => uniform ?_
  intro K P
  refine (Agree.writable? target).bind fun key => ?_
  split
  · exact .pure _
  · refine (Agree.readFloat index).bind fun _ => ?_
    dsimp only
    split
    · exact ((Agree.readVar list).bind fun _ => .pure _).bind fun _ => Agree.assign _ _
    · exact Agree.assign _ _

theorem setItemCount : Tracks K ps inv name Command.setItemCount := by
  refine (word hSpelling).bind hSpelling fun target => ?_
  refine (word hSpelling).bind hSpelling fun lead => uniform ?_
  intro K P
  refine (Agree.writable? target).bind fun key => ?_
  split
  · exact .pure _
  · refine Agree.self? (fun e => ?_) fun _ => Agree.assign _ _
    rw [Option.map_map]
    rfl

theorem runSet : Tracks K ps inv name Command.runSet := by
  refine (flags hSpelling).bind hSpelling fun flags => ?_
  split
  · exact setElement hSpelling
  · split
    · exact setItemCount hSpelling
    · refine (word hSpelling).bind hSpelling fun target => ?_
      refine (word hSpelling).bind hSpelling fun value => uniform ?_
      intro K P
      refine (Agree.writable? target).bind fun key => ?_
      split
      · exact .pure _
      · exact (Agree.operandValue _ _).bind fun _ => Agree.assign _ _

theorem runUnset : Tracks K ps inv name Command.runUnset := by
  refine (word hSpelling).bind hSpelling fun target => uniform ?_
  intro K P
  refine (Agree.writable? target).bind fun key => ?_
  split
  · exact .pure _
  · exact (Agree.unsetVar _).discard.bind fun _ => .pure _

theorem runArithmetic (op : Arithmetic) : Tracks K ps inv name (Command.runArithmetic op) := by
  refine (word hSpelling).bind hSpelling fun target => ?_
  refine (word hSpelling).bind hSpelling fun operand => uniform ?_
  intro K P
  refine (Agree.writable? target).bind fun key => ?_
  split
  · exact .pure _
  · exact (Agree.operandValue _ _).bind fun _ => Agree.update _ _ _

theorem runStep (delta : Int64) : Tracks K ps inv name (Command.runStep delta) := by
  refine (word hSpelling).bind hSpelling fun target => uniform ?_
  intro K P
  refine (Agree.writable? target).bind fun key => ?_
  split
  · exact .pure _
  · exact Agree.update _ _ _

theorem assignment {c : Command} (h : c ∈ Command.assignment) : Tracks K ps inv name c.run := by
  simp only [Command.assignment, List.mem_cons, List.not_mem_nil, or_false] at h
  rcases h with rfl | rfl | rfl | rfl | rfl | rfl | rfl | rfl | rfl | rfl | rfl | rfl | rfl
  · exact runSet hSpelling
  · exact runUnset hSpelling
  · exact runArithmetic hSpelling .add
  · exact runArithmetic hSpelling .add
  · exact runArithmetic hSpelling .sub
  · exact runArithmetic hSpelling .sub
  · exact runArithmetic hSpelling .mul
  · exact runArithmetic hSpelling .div
  · exact runArithmetic hSpelling .mod
  · exact runArithmetic hSpelling .pow
  · exact runArithmetic hSpelling .root
  · exact runStep hSpelling 1
  · exact runStep hSpelling (-1)

theorem readWords (n : Nat) : Tracks K ps inv name (Command.readWords n) := by
  induction n with
  | zero => exact pure _
  | succ n ih => exact (word hSpelling).bind hSpelling fun _ => ih.bind hSpelling fun _ => pure _

theorem parameters : Tracks K ps inv name Command.parameters := by
  refine (hasMore hSpelling).bind hSpelling fun more => ?_
  split
  · exact (word hSpelling).bind hSpelling fun _ => pure _
  · exact pure _

theorem audience? (options : String) : Tracks K ps inv name (Command.audience? options) := by
  unfold Command.audience?
  split
  · exact (word hSpelling).bind hSpelling fun _ => pure _
  · split
    · refine (word hSpelling).bind hSpelling fun w => uniform ?_
      intro K P
      split
      · exact (Agree.readFloat w).bind fun _ => .pure _
      · exact (Agree.debug _).bind fun _ => .pure _
    · exact pure _

theorem runSend : Tracks K ps inv name Command.runSend := by
  refine (flags hSpelling).bind hSpelling fun options => ?_
  refine (audience? hSpelling options).bind hSpelling fun audience => ?_
  refine (word hSpelling).bind hSpelling fun event => ?_
  split
  · refine (word hSpelling).bind hSpelling fun target => ?_
    refine (parameters hSpelling).bind hSpelling fun parameters => uniform ?_
    intro K P
    refine (Agree.resolve? target).bind fun id => ?_
    split
    · exact (Agree.warnAt _ _).bind fun _ => .pure _
    · exact .pure _
  · refine (parameters hSpelling).bind hSpelling fun parameters => uniform ?_
    intro K P
    refine .invocation (.world (fun w => ?_) fun w => ?_)
    · simp only [World.bare, Agree.receivers]
    · intro p p' hp
      obtain ⟨hCount, hWorld, hHost⟩ := Agree.enqueueAll inv.entity (EventName.parse event) parameters
        (Command.receivers w.entities inv.entity (Command.kindsOf options) _) hp.world hp.host
      have hReport (queued : Nat) (t t' : Session) (hWorld : t'.world.bare = t.world.bare)
          (hHost : t'.host = t.host) := ((Agree.debug ("sendevent " ++ (EventName.parse event).shown ++
            " queued for " ++ toString queued ++ " entities")).bind fun _ => .pure Reply.success :
          Uniform K P inv (Script.edition name ps .original) (Script.edition name ps .respelled) _)
        { p with session := t } { p' with session := t' } ⟨hWorld, hHost, hp.calls, hp.pos⟩
      rw [get_bind, get_bind]
      dsimp only [Invocation.within]
      generalize Command.enqueueAll _ _ _ _ p.session = sent at hCount hWorld hHost ⊢
      generalize Command.enqueueAll _ _ _ _ p'.session = sent' at hCount hWorld hHost ⊢
      obtain ⟨queued, t⟩ := sent
      obtain ⟨queued', t'⟩ := sent'
      obtain rfl : queued' = queued := hCount
      exact hReport _ _ _ hWorld hHost

theorem runStopwatch (starts : Bool) : Tracks K ps inv name (Command.runStopwatch starts) := by
  refine (word hSpelling).bind hSpelling fun w => uniform ?_
  intro K P
  split
  · exact (Agree.warn _ _).bind fun _ => .pure _
  · apply Agree.world
    · exact fun _ => rfl
    · exact fun w => Agree.markSelf fun _ => rfl

theorem runSetEvent : Tracks K ps inv name Command.runSetEvent := by
  refine (word hSpelling).bind hSpelling fun event => ?_
  refine (bool hSpelling).bind hSpelling fun enabled => uniform ?_
  intro K P
  split
  · exact (Agree.warn _ _).bind fun _ => .pure _
  · exact Agree.markSelf fun _ => rfl

theorem runSetMain : Tracks K ps inv name Command.runSetMain := by
  refine (word hSpelling).bind hSpelling fun event => uniform ?_
  intro K P
  split
  · exact (Agree.warn _ _).bind fun _ => .pure _
  · refine Agree.markSelf fun e => ?_
    simp only [Entity.bare]

theorem runSetGroup : Tracks K ps inv name Command.runSetGroup := by
  refine (flags hSpelling).bind hSpelling fun options => ?_
  refine (word hSpelling).bind hSpelling fun group => uniform ?_
  intro K P
  split
  · exact (Agree.warn _ _).bind fun _ => .pure _
  · exact Agree.markSelf fun _ => rfl

theorem runDestroy : Tracks K ps inv name Command.runDestroy := by
  refine (word hSpelling).bind hSpelling fun w => uniform ?_
  intro K P
  refine (Agree.resolve? w).bind fun target => ?_
  split
  · exact (Agree.warnAt _ _).bind fun _ => .pure _
  · exact (Agree.destroy _).bind fun _ => .invocation (.pure _)

end Tracks

/-! Commands that pass over text without reading words in it. -/

namespace Keeps

/-- What an act asks of its dispatch has nothing to do with the script. -/
theorem invocation {f : Invocation → Act β}
    (hSame : f (inv.within (Script.edition name ps .respelled)) =
      f (inv.within (Script.edition name ps .original)))
    (hf : Keeps K ps inv name (f (inv.within (Script.edition name ps .original)))) :
    Keeps K ps inv name (Act.invocation >>= f) := by
  intro p p' hp
  rw [invocation_bind, invocation_bind, hSame]
  exact hf p p' hp

/-- Going on with the game. -/
theorem host {f : Progress → Act β}
    (hSame : ∀ p p', p'.session.host = p.session.host → f p' = f p)
    (hf : ∀ p, Keeps K ps inv name (f p)) :
    Keeps K ps inv name ((MonadState.get : Act Progress) >>= f) := by
  intro p p' hp
  rw [get_bind, get_bind, hSame p p' hp.host]
  exact hf p p p' hp

variable (hSpelling : Script.Respelling ps)

include hSpelling

theorem putOff (delay : Duration) : Keeps K ps inv name (Command.putOff delay) := by
  refine skipLine_keeps hSpelling (Agree.pure ()) ?_
  intro K P pos pos'
  refine .invocation (.world (fun w => ?_) fun w => ?_)
  · simp only [World.bare, TimerSet.defaultName_bare]
  · exact Agree.beginTimer rfl

end Keeps

end Act

namespace Command

/-- The names of the commands that decide which statements run. -/
def controls : List String := ["accept", "refuse", "if", "else", "return"]

/-- The words that a timer command reads behind the name and the flags. -/
def orderWords (first : String) : Act Unit := do
  unless first = "off" do
    let _ ← Act.readFloat first
    let _ ← Act.float

/-- The words that a timer command reads. -/
def timerWords (timer : String) : Act Unit := do
  unless timer = "kill_local" do
    let _ ← Act.flags
    let first ← Act.word
    if timer = "" && namesTimer first then
      unless first = "kill_local" do
        let _ ← Act.flags
        orderWords (← Act.word)
    else orderWords first

/-- The words that a command reads. What passes over a statement or over the rest of a line, or jumps,
reads no words there. -/
def words (c : Command) : Act Unit :=
  if c.name ∈ controls then return ()
  else if c.name ∈ jumps then discard Act.word
  else if c.name = "random" then discard Act.float
  else if c.name ∈ gameplay.map Command.name then do
    let _ ← Act.flags
    discard (readWords 1)
  else discard c.run

end Command

namespace Act.TracksBy

open Progress (Alike SameWorld Aligned)

variable {K : List Call → List Call → Prop} {ps : List Part} {inv : Invocation} {name : String}
  (hSpelling : Script.Respelling ps)

include hSpelling

theorem startTimer (timer flags first : String) : TracksBy K ps inv name
    (Command.startTimer timer flags first) (do let _ ← readFloat first; let _ ← Act.float) := by
  refine bind hSpelling (Tracks.uniform (.readFloat _)) fun count => ?_
  refine (Tracks.float hSpelling).bind hSpelling fun amount => keeps ?_
  refine skipLine_keeps hSpelling (Agree.sameWorld ((Agree.warn _ _).bind fun _ => .pure _)) ?_
  intro K P pos pos'
  refine .invocation (.world (fun w => ?_) fun w => ?_)
  · simp only [World.bare, TimerSet.defaultName_bare]
  · refine Agree.bind ?_ fun _ => .pure _
    exact Agree.beginTimer rfl

theorem stopOrStart (timer flags first : String) :
    TracksBy K ps inv name (Command.stopOrStart timer flags first) (Command.orderWords first) := by
  unfold Command.stopOrStart Command.orderWords
  by_cases hOff : first = "off"
  · rw [if_pos hOff, if_pos hOff]
    refine uniform ?_
    intro K P
    apply Agree.invocation
    dsimp only [Invocation.within]
    split
    · exact (Agree.stopTimer _).bind fun _ => .pure _
    · exact .pure _
  · rw [if_neg hOff, if_neg hOff]
    exact startTimer hSpelling _ _ _

theorem runTimer (timer : String) :
    TracksBy K ps inv name (Command.runTimer timer) (Command.timerWords timer) := by
  unfold Command.runTimer Command.timerWords
  by_cases hKill : timer = "kill_local"
  · rw [if_pos hKill, if_pos hKill]
    exact uniform .stopAll
  · rw [if_neg hKill, if_neg hKill]
    refine (Tracks.flags hSpelling).bind hSpelling fun options => ?_
    refine (Tracks.word hSpelling).bind hSpelling fun first => ?_
    by_cases hNamed : (timer = "" && Command.namesTimer first) = true
    · rw [if_pos hNamed, if_pos hNamed]
      by_cases hStops : first = "kill_local"
      · rw [if_pos hStops, if_pos hStops]
        exact uniform .stopAll
      · rw [if_neg hStops, if_neg hStops]
        refine (Tracks.flags hSpelling).bind hSpelling fun more => ?_
        exact (Tracks.word hSpelling).bind hSpelling fun _ => stopOrStart hSpelling _ _ _
    · rw [if_neg hNamed, if_neg hNamed]
      exact stopOrStart hSpelling _ _ _

theorem forward (command : String) (arity : Nat) : TracksBy K ps inv name
    (Command.forward command arity) (do let _ ← Act.flags; Functor.discard (Command.readWords arity)) := by
  refine (Tracks.flags hSpelling).bind hSpelling fun options => ?_
  refine (Tracks.readWords hSpelling arity).bind hSpelling fun args => keeps ?_
  refine Keeps.invocation rfl ?_
  refine Agree.bind (Agree.sameWorld .ident) fun ident => ?_
  refine Agree.bind (Agree.sameWorld (.logs (fun _ _ => ⟨_, rfl⟩) fun _ _ => ⟨_, rfl⟩)) fun _ => ?_
  refine Keeps.host (fun p p' hHost => by simp only [hHost]) fun p => ?_
  refine Agree.bind (Agree.sameWorld (.setHost _)) fun _ => ?_
  split
  · exact .pure _
  · exact Agree.sameWorld ((Agree.warn _ _).bind fun _ => .pure _)
  · exact (Keeps.putOff hSpelling _).bind fun _ => .pure _

theorem runRandom : TracksBy K ps inv name Command.runRandom (Functor.discard Act.float) := by
  refine (Tracks.float hSpelling).bind hSpelling fun chance => keeps ?_
  refine Agree.bind (Agree.sameWorld (.draw _)) fun drawn => ?_
  dsimp only
  split
  · exact (skipStatement_keeps hSpelling).bind fun _ => .pure _
  · exact .pure _

/-- The commands that neither jump nor decide which statements run come to the same, if they read no word
with two spellings. -/
theorem builtins {c : Command} (h : c ∈ Command.builtins) (hControl : c.name ∉ Command.controls)
    (hJump : c.name ∉ Command.jumps) : TracksBy K ps inv name c.run c.words := by
  unfold Command.words
  rw [if_neg hControl, if_neg hJump]
  simp only [Command.builtins, List.mem_append] at h
  rcases h with (((((h | h) | h) | h) | h) | h) | h
  · simp only [Command.flow, List.mem_cons, List.not_mem_nil, or_false] at h
    rcases h with rfl | rfl | rfl | rfl | rfl | rfl | rfl | rfl
    · exact absurd (by decide) hControl
    · exact absurd (by decide) hControl
    · exact absurd (by decide) hControl
    · exact absurd (by decide) hControl
    · exact absurd (by decide) hJump
    · exact absurd (by decide) hJump
    · exact absurd (by decide) hJump
    · exact runRandom hSpelling
  · have hOthers : ∀ name ∈ Command.assignment.map Command.name,
        name ≠ "random" ∧ name ∉ Command.gameplay.map Command.name := by decide
    obtain ⟨hRandom, hGame⟩ := hOthers _ (List.mem_map_of_mem h)
    rw [if_neg hRandom, if_neg hGame]
    exact discard (Tracks.assignment hSpelling h)
  · simp only [Command.schedule, List.mem_cons, List.not_mem_nil, or_false] at h
    rcases h with rfl | rfl
    · exact discard (Tracks.runStopwatch hSpelling true)
    · exact discard (Tracks.runStopwatch hSpelling false)
  · simp only [Command.messaging, List.mem_cons, List.not_mem_nil, or_false] at h
    rcases h with rfl | rfl | rfl
    · exact discard (Tracks.runSend hSpelling)
    · exact discard (Tracks.runSetEvent hSpelling)
    · exact discard (Tracks.runSetMain hSpelling)
  · simp only [Command.membership, List.mem_cons, List.not_mem_nil, or_false] at h
    rcases h with rfl | rfl
    · exact discard (Tracks.runSetGroup hSpelling)
    · exact discard (Tracks.runDestroy hSpelling)
  · simp only [Command.gameplay, List.mem_cons, List.not_mem_nil, or_false] at h
    rcases h with rfl | rfl | rfl | rfl | rfl | rfl | rfl
    all_goals exact forward hSpelling _ 1
  · have hOthers : ∀ name ∈ Command.listings.map Command.name,
        name ≠ "random" ∧ name ∉ Command.gameplay.map Command.name := by decide
    obtain ⟨hRandom, hGame⟩ := hOthers _ (List.mem_map_of_mem h)
    rw [if_neg hRandom, if_neg hGame]
    exact discard (Tracks.uniform (Agree.listings h))

end Act.TracksBy

end EntityScript
