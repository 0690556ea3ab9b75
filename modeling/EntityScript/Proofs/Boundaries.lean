import EntityScript.Proofs.Depth
import EntityScript.Proofs.Isolation
import EntityScript.Proofs.Requests

/-! Offsets that are kept to go on from later: the places behind labels and headers, the return points of
subroutines and the places where timers run their lines. The cursor of a dispatch may come to lie beyond
the text, but its offset is kept only behind a word that was just read, or where text is left on the line.
So what is kept is a boundary, whatever a dispatch or a request does. -/
namespace EntityScript

namespace Script

/-- The offset is one of the text and does not lie inside a character. -/
structure Boundary (s : Script) (pos : Nat) : Prop where
  within : pos ≤ s.size
  between : ∃ before after, s.text = before ++ after ∧ Text.width before = pos

variable {s : Script} {pos : Nat}

theorem Valid.boundary (h : s.Valid pos) : s.Boundary pos := by
  refine ⟨h.le_size, ?_⟩
  obtain ⟨before, hText, hWidth⟩ := Text.from?_eq_some h.holds
  exact ⟨before, _, hText, hWidth⟩

/-- Every label that a script keeps stands behind one of its words. -/
theorem mem_of_mem_labels {entry : String × Nat} (h : entry ∈ s.labels) :
    entry ∈ s.runs.filterMap Run.label? := by
  have hFold (found entries : List (String × Nat))
      (hEntry : entry ∈ entries.foldl
        (fun found e => if (found.lookup e.1).isSome then found else found ++ [e]) found) :
      entry ∈ found ∨ entry ∈ entries := by
    induction entries generalizing found with
    | nil => exact .inl hEntry
    | cons e entries ih =>
        rw [List.foldl_cons] at hEntry
        rcases ih _ hEntry with hFound | hLater
        · split at hFound
          · exact .inl hFound
          · exact (List.mem_append.mp hFound).imp_right fun hNew =>
              List.mem_cons.mpr (.inl (List.mem_singleton.mp hNew))
        · exact .inr (List.mem_cons_of_mem _ hLater)
  exact (hFold [] _ h).resolve_left List.not_mem_nil

end Script

/-- Every timer runs a line that begins at a boundary of its script. -/
def Session.Resumable (s : Session) : Prop :=
  ∀ i t, s.world.timers.slot? i = some t → t.script.Boundary t.pos

/-- Every subroutine of the dispatch returns to a boundary of its script. -/
def Frame.Resumable (f : Frame) : Prop := ∀ c ∈ f.calls, f.invocation.script.Boundary c.returnPos

namespace Session.Resumable

variable {s t : Session}

theorem of_same (hs : s.Resumable) (h : t.world.timers = s.world.timers) : t.Resumable :=
  fun i x hx => hs i x (h ▸ hx)

/-- Where timers are started, but only for a line that begins at a boundary. -/
theorem evolves (hs : s.Resumable) (h : Evolves (fun x => x.script.Boundary x.pos) s t) :
    t.Resumable := by
  intro i x hx
  rcases h.timers i x hx with hOld | hStarted
  · exact hs i x hOld
  · exact hStarted

theorem fresh {inv : Invocation} {here : Progress} (hs : s.Resumable)
    (h : Evolves (inv.Fresh here) s t) : t.Resumable := by
  refine hs.evolves (h.mono fun x hx => ?_)
  rw [hx.script]
  exact hx.valid.boundary

theorem setTimer (hs : s.Resumable) (i : Nat) {slot : Option Timer}
    (hSlot : ∀ moved, slot = some moved → moved.script.Boundary moved.pos) :
    (s.setTimer i slot).Resumable := by
  intro j x hx
  rcases TimerSet.slot?_setSlot hx with ⟨_, hNew⟩ | hOld
  · exact hSlot x hNew
  · exact hs j x hOld

theorem firing {now : Duration} {i : Nat} {x : Timer} (hs : s.Resumable)
    (h : s.fires? now i = some x) : (s.firing now i x).Resumable := by
  have hLine := hs i x (slot?_of_fires? h)
  refine (hs.setTimer i fun moved hMoved => ?_).of_same rfl
  split at hMoved
  · cases hMoved
  · rw [Timer.advanced?_keeps hMoved]
    exact hLine

theorem of_no_timers (h : s.world.timers = .empty) : s.Resumable := by
  intro i t ht
  rw [h] at ht
  simp [TimerSet.slot?, TimerSet.empty] at ht

end Session.Resumable

namespace Action.Holds

variable {α β : Type} {P : Session → Prop}

/-- Going on with the session, of which the property holds. -/
theorem look {f : Session → Action α} (hf : ∀ s, P s → Holds P (f s)) :
    Holds P ((MonadState.get : Action Session) >>= f) := fun s hs => hf s hs s hs

theorem discard {x : Action α} (hx : Holds P x) : Holds P (Functor.discard x) :=
  hx.bind fun _ => .pure _

theorem fitting {o : Option α} {k : α → Action β} (hk : ∀ a, o = some a → Holds P (k a)) :
    Holds P (Rules.fitting o >>= k) := by
  cases o with
  | none => exact fun _ hs => hs
  | some a => exact hk a rfl

/-- It holds of the session that an action ends in. -/
theorem of_ok {x : Action α} (hx : Holds P x) {a : α} {s t : Session} (hs : P s)
    (h : x s = .ok a t) : P t := by
  have hEnd := hx s hs
  rwa [state, h] at hEnd

theorem forM {f : α → Action Unit} (hf : ∀ a, Holds P (f a)) (as : List α) :
    Holds P (as.forM f) := by
  induction as with
  | nil => exact .pure _
  | cons a as ih => exact (hf a).bind fun _ => ih

end Action.Holds

/-- The action keeps the timers at boundaries, at a value or at a halt. -/
abbrev Action.Resumes {α : Type} (act : Action α) : Prop := act.Holds Session.Resumable

/-- An act that reads on or jumps keeps the timers at boundaries. -/
theorem Act.Ends.resumes {α : Type} {inv : Invocation} {start p : Progress} {act : Act α}
    {P : α → Progress → Prop} (h : Ends inv start act p P) (hStart : start.session.Resumable)
    (hP : ∀ a q, P a q → q.session.Resumable) : (act.state inv p).session.Resumable := by
  unfold Ends at h
  unfold Act.state
  cases hRun : act inv p with
  | ok a q =>
      rw [hRun] at h
      exact hP a q h
  | error halt q =>
      rw [hRun] at h
      exact hStart.fresh h.2

namespace Rules

open EntityScript.Action (Holds Resumes)

variable {rules : Rules}

theorem openEvent_resumes (f : Frame) : Resumes (f.perform Act.openEvent) := by
  intro s hs
  rw [Frame.perform_state]
  exact (Act.openEvent_steady _ (Advance.refl _ _).onward).resumes hs fun _ _ hq =>
    hs.fresh hq.1.session

theorem nested_resumes (script : Script) (event : EventName) {act : Action Verdict}
    (hAct : Resumes act) : Resumes (rules.nested script event act) := by
  refine .here fun _ => .ite ?_ ?_
  · exact .bind (.change fun _ hs => hs.of_same rfl) fun _ => .pure _
  · refine .bind (.change fun _ hs => hs.of_same rfl) fun _ => hAct.bind fun _ => ?_
    exact .bind (.change fun _ hs => hs.of_same rfl) fun _ => .pure _

theorem deliverTo_resumes {run : Frame → Action Verdict} (hRun : ∀ f, Resumes (run f)) (d : Delivery)
    (script : Script) : Resumes (rules.deliverTo run d script) := by
  unfold deliverTo
  split
  · exact .pure _
  · exact nested_resumes _ _ ((openEvent_resumes _).bind fun _ => .ite (hRun _) (.pure _))

theorem deliverWith_resumes {run : Frame → Action Verdict} (hRun : ∀ f, Resumes (run f))
    (d : Delivery) : Resumes (rules.deliverWith run d) := by
  refine .here fun s => ?_
  cases s.world.entities.get? d.target with
  | none => exact .pure _
  | some e =>
      refine .ite (.pure _) (.ite (.pure _) ?_)
      refine (deliverTo_resumes hRun d _).bind fun _ => .here fun _ => .ite (.pure _) ?_
      exact deliverTo_resumes hRun d _

theorem setTimer_resumes (i : Nat) {slot : Option Timer}
    (hSlot : ∀ moved, slot = some moved → moved.script.Boundary moved.pos) :
    Resumes (setTimer i slot) := .change fun _ hs => hs.setTimer i hSlot

theorem about_resumes {α : Type} (id : EntityId) {act : Action α} (hAct : Resumes act) :
    Resumes (about id act) := .here fun _ => .ite (hAct.bind fun _ => .pure _) (.pure _)

section OfBuiltins

variable (hRegistry : rules.registry.OfBuiltins)

include hRegistry

/-- A turn starts timers only for a rest of a line that it has before it. -/
theorem turn_resumes (f : Frame) : Resumes (f.perform (Act.turn rules.registry f.stance)) := by
  intro s hs
  rw [Frame.perform_state]
  refine (Act.turn_cases hRegistry f.stance f.invocation ⟨s, f.pos, f.calls⟩).resumes hs ?_
  rintro turn q ⟨scan, log, _, hTurned⟩
  have hHere : Session.Resumable ⟨s.world, s.host, log⟩ := hs.of_same rfl
  exact hHere.fresh hTurned.evolves

/-- A turn keeps a return point only behind a word that it just read. -/
theorem turn_returns {f g : Frame} {turn : Turn} {s t : Session} (hf : f.Resumable)
    (h : f.perform (Act.turn rules.registry f.stance) s = .ok (turn, g) t) : g.Resumable := by
  obtain ⟨hTurn, hInvocation, _⟩ := Frame.perform_ok h
  have hCases := Act.turn_cases hRegistry f.stance f.invocation ⟨s, f.pos, f.calls⟩
  rw [Act.Ends, hTurn] at hCases
  obtain ⟨scan, log, hScan, hTurned⟩ := hCases
  have hHere := (Script.commandAt_holds hScan).2.valid.holds
  have hMoves := hTurned.moves
  dsimp only [Progress.read] at hMoves
  unfold Frame.Resumable
  rw [hInvocation]
  rcases hMoves with ⟨_, hCalls⟩ | hLeap
  · rw [hCalls]
    exact hf
  · cases hLeap with
    | enter label _ hCalls =>
        rw [hCalls]
        intro c hc
        rcases List.mem_cons.mp hc with rfl | hOld
        · exact (hHere.reaches (Script.nextWord_reaches _ _)).valid.boundary
        · exact hf c hOld
    | go label _ hCalls =>
        rw [hCalls]
        exact hf
    | back label hCalls => exact fun c hc => hf c (hCalls ▸ List.mem_cons_of_mem _ hc)

/-- Wherever a dispatch is entered, it keeps the timers at boundaries. -/
theorem run_resumes (fuel : Nat) (f : Frame) : Resumes (rules.run fuel f) := by
  induction fuel generalizing f with
  | zero => exact fun _ hs => hs
  | succ fuel ih =>
      have hProceed (g : Frame) : Resumes (rules.proceed fuel g) :=
        .here fun _ => .ite (ih g) (.pure _)
      rw [run_turn]
      refine (turn_resumes hRegistry f).bind fun result => ?_
      obtain ⟨turn, g⟩ := result
      cases turn with
      | finish v => exact .pure v
      | go stance => exact hProceed _
      | send e stance => exact (deliverWith_resumes ih _).discard.bind fun _ => hProceed _

theorem deliver_resumes (fuel : Nat) (d : Delivery) : Resumes (rules.deliver fuel d) :=
  deliverWith_resumes (run_resumes hRegistry fuel) d

theorem runLine_resumes (fuel : Nat) (script : Script) (entity : EntityId) (pos : Nat)
    (timer : Option String) : Resumes (rules.runLine fuel script entity pos timer) :=
  .here fun _ => .ite (nested_resumes _ _ (run_resumes hRegistry fuel _)) (.pure _)

theorem pass_resumes (fuel : Nat) (f : Frame) : Resumes (rules.pass fuel f) := by
  have hOn (g : Frame) (stance : Stance) : Resumes (goOn g stance) := fun _ hs => hs
  refine (turn_resumes hRegistry f).bind fun result => ?_
  obtain ⟨turn, g⟩ := result
  cases turn with
  | finish v => exact .pure _
  | go stance => exact hOn g stance
  | send e stance => exact (deliver_resumes hRegistry fuel _).discard.bind fun _ => hOn g stance

/-! So do requests. -/

theorem visitTimer_resumes (fuel : Nat) (now : Duration) (i : Nat) :
    Resumes (rules.visitTimer fuel now i) := by
  refine .look fun s hs => ?_
  dsimp only
  split
  · exact .pure _
  · rename_i t hSlot
    have hLine := hs i t hSlot
    have hFreed : Resumes (setTimer i none) := setTimer_resumes i nofun
    refine .fitting fun due _ => .ite ?_ (.pure _)
    split
    · exact hFreed
    · refine .ite ?_ ?_
      · refine .fitting fun moved hCaught => setTimer_resumes i fun _ hMoved => ?_
        cases hMoved
        rw [Timer.caughtUp?_keeps hCaught]
        exact hLine
      · have hRun : Resumes (do
            modify <| Session.write .trace .timer ("fire " ++ t.name ++ " on " ++ t.owner.shown)
            discard <| rules.runLine fuel t.script t.owner t.pos (some t.name)) :=
          .bind (.change fun _ hs => hs.of_same rfl) fun _ =>
            (runLine_resumes hRegistry fuel _ _ _ _).discard
        refine .ite (hFreed.bind fun _ => hRun) ?_
        refine .fitting fun moved hAdvanced => (setTimer_resumes i fun _ hMoved => ?_).bind fun _ => hRun
        cases hMoved
        rw [Timer.advanced?_keeps hAdvanced]
        exact hLine

theorem sweepFrom_resumes (fuel : Nat) (now : Duration) (steps i : Nat) :
    Resumes (rules.sweepFrom fuel now steps i) := by
  induction steps generalizing i with
  | zero => exact fun _ hs => hs
  | succ steps ih =>
      exact .here fun _ => .ite ((visitTimer_resumes hRegistry fuel now i).bind fun _ => ih _) (.pure _)

theorem sweep_resumes (fuel : Nat) : Resumes (rules.sweep fuel) :=
  .here fun _ => sweepFrom_resumes hRegistry fuel _ _ _

theorem visitSlot_resumes (fuel i : Nat) : Resumes (rules.visitSlot fuel i) := by
  refine .here fun s => ?_
  dsimp only
  split
  · exact .pure _
  · rename_i p _
    have hRelease : Resumes (onQueue (·.release i p.number)) := .change fun _ hs => hs.of_same rfl
    refine .ite ?_ ?_
    · exact (deliver_resumes hRegistry fuel _).discard.bind fun _ => hRelease.bind fun _ => .pure _
    · exact .bind (.change fun _ hs => hs.of_same rfl) fun _ => hRelease.bind fun _ => .pure _

theorem drainSlots_resumes (fuel limit : Nat) (slots : List Nat) (delivered : Nat) :
    Resumes (rules.drainSlots fuel limit delivered slots) := by
  induction slots generalizing delivered with
  | nil => exact .pure _
  | cons i rest ih =>
      exact (visitSlot_resumes hRegistry fuel i).bind fun _ => .ite (.ite (.pure _) (ih _)) (ih _)

theorem drain_resumes (fuel limit : Nat) : Resumes (rules.drain fuel limit) :=
  .here fun _ => drainSlots_resumes hRegistry fuel limit _ _

theorem beat_resumes (fuel : Nat) : Resumes (rules.beat fuel) := by
  refine .here fun s => ?_
  dsimp only
  split
  · exact .pure _
  · exact .bind (.change fun _ hs => hs.of_same rfl) fun _ =>
      (deliver_resumes hRegistry fuel _).discard.bind fun _ => .pure _

theorem beats_resumes (fuel n : Nat) : Resumes (rules.beats fuel n) := by
  induction n with
  | zero => exact .pure _
  | succ n ih =>
      refine (beat_resumes hRegistry fuel).bind fun _ => ?_
      exact .ite (ih.bind fun _ => .pure _) (.pure _)

theorem initEntity_resumes (fuel : Nat) (id : EntityId) : Resumes (rules.initEntity fuel id) := by
  refine about_resumes id ((deliver_resumes hRegistry fuel _).bind fun v => .here fun s => ?_)
  exact .ite ((deliver_resumes hRegistry fuel _).discard.bind fun _ => .pure _) (.pure _)

theorem execute_resumes (fuel : Nat) (id : EntityId) (text : String) :
    Resumes (rules.execute fuel id text) := by
  have hNoted : Resumes (modify (Session.noteScript (.ofRaw consoleName text)) : Action Unit) :=
    .change fun _ hs => hs.of_same rfl
  exact about_resumes id (hNoted.bind fun _ => runLine_resumes hRegistry fuel _ _ _ _)

theorem reset_resumes (fuel : Nat) (again : Bool) : Resumes (rules.reset fuel again) := by
  refine .bind (.change fun _ _ => .of_no_timers rfl) fun _ =>
    .bind (.change fun _ hs => hs.of_same rfl) fun _ => .ite ?_ (.pure _)
  exact .here fun _ => .forM (fun id => (initEntity_resumes hRegistry fuel id).discard) _

theorem tick_resumes (fuel : Nat) (dt : Duration) : Resumes (rules.tick fuel dt) := by
  refine .here fun s => .fitting fun clock _ => .bind (.change fun _ hs => hs.of_same rfl) fun _ => ?_
  refine (sweep_resumes hRegistry fuel).bind fun _ => ?_
  refine (drain_resumes hRegistry fuel _).discard.bind fun _ => ?_
  exact Holds.discard (.here fun _ => beats_resumes hRegistry fuel _)

/-- Every request keeps the timers at boundaries, also where it halts. -/
theorem perform_resumes (fuel : Nat) (r : Request) : Resumes (r.perform rules fuel) := by
  cases r with
  | spawn b => exact .change fun s hs => hs.of_same (by rw [s.spawn_world b])
  | send d => exact (about_resumes _ (deliver_resumes hRegistry fuel d)).discard
  | peek target event => exact (about_resumes _ (deliver_resumes hRegistry fuel _)).discard
  | queue e => exact .discard fun s hs => hs.evolves (.enqueue e s)
  | init id => exact (initEntity_resumes hRegistry fuel id).discard
  | execute id text => exact (execute_resumes hRegistry fuel id text).discard
  | tick dt => exact tick_resumes hRegistry fuel dt
  | timers => exact sweep_resumes hRegistry fuel
  | drain limit => exact (drain_resumes hRegistry fuel limit).discard
  | heartbeat => exact Holds.discard (.here fun _ => beats_resumes hRegistry fuel _)
  | dismiss id => exact .change fun s hs => hs.evolves (.destroy id s)
  | reset again => exact reset_resumes hRegistry fuel again
  | setGlobal name v => exact .change fun s hs => hs.evolves (.setGlobal name v s)
  | setLocal id name v => exact .change fun s hs => hs.evolves (.setLocal id name v s)

end OfBuiltins

end Rules

end EntityScript
