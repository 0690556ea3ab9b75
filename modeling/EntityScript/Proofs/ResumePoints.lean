import EntityScript.Proofs.Boundaries

/-! Resume points throughout the life of an engine. Everything that it carries out is taken up from
something else that it carries out, from the requests down to the frames of a dispatch. Whatever it takes
up, it finds no offset kept but boundaries. -/
namespace EntityScript

/-- What an engine carries out: requests one after the other, the sweep of the timers from a slot on, the
drain of slots of the queue, a number of beats, or a part of a dispatch. -/
inductive Task where
  | requests (rest : List Request)
  | sweep (now : Duration) (steps i : Nat)
  | drain (limit delivered : Nat) (slots : List Nat)
  | beats (n : Nat)
  | dispatch (x : Stage)

/-- The target of an event is live and lets it in. -/
structure Session.Receives (s : Session) (d : Delivery) (e : Entity) : Prop where
  target : s.world.entities.get? d.target = some e
  allows : e.allows d.event = true
  inZone : d.event = .fixed .main → e.inZone = true

/-- `rules.TakesUp fuel (x, s) (y, t)`: having taken up `x` in the session `s`, the engine comes to take
up `y` in the session `t`, as a part of `x` or as what is left of it. Behind a request that halts it is
taken to go on with the next one, also inside a tick. -/
inductive Rules.TakesUp (rules : Rules) (fuel : Nat) : Task × Session → Task × Session → Prop where
  | next (r : Request) (rest : List Request) (s : Session) :
      TakesUp rules fuel (.requests (r :: rest), s) (.requests rest, (r.perform rules fuel).state s)
  | send {d : Delivery} {rest : List Request} {s : Session}
      (hLive : s.world.entities.contains d.target = true) :
      TakesUp rules fuel (.requests (.send d :: rest), s) (.dispatch (.event fuel d), s)
  | peek {target : EntityId} {event : EventName} {rest : List Request} {s : Session}
      (hLive : s.world.entities.contains target = true) :
      TakesUp rules fuel (.requests (.peek target event :: rest), s)
        (.dispatch (.event fuel { target, event, dry := true }), s)
  | init {id : EntityId} {rest : List Request} {s : Session}
      (hLive : s.world.entities.contains id = true) :
      TakesUp rules fuel (.requests (.init id :: rest), s)
        (.dispatch (.event fuel { target := id, event := .fixed .init }), s)
  | initEnd {id : EntityId} {rest : List Request} {s t : Session} {v : Verdict}
      (hInit : rules.deliver fuel { target := id, event := .fixed .init } s = .ok v t)
      (hLive : t.world.entities.contains id = true) :
      TakesUp rules fuel (.requests (.init id :: rest), s)
        (.dispatch (.event fuel { target := id, event := .fixed .initEnd }), t)
  | execute {id : EntityId} {text : String} {rest : List Request} {s : Session}
      (hLive : s.world.entities.contains id = true) :
      TakesUp rules fuel (.requests (.execute id text :: rest), s)
        (.dispatch (.line fuel (.ofRaw consoleName text) id 0 none),
          s.noteScript (.ofRaw consoleName text))
  /-- Behind the clock a tick sweeps the timers, drains the queue and lets the heart beat. -/
  | tick {dt clock : Duration} {rest : List Request} {s : Session}
      (hClock : s.world.clock.add? dt = some clock) :
      TakesUp rules fuel (.requests (.tick dt :: rest), s)
        (.requests [.timers, .drain rules.config.drainLimit, .heartbeat],
          s.onWorld fun w => { w with clock })
  /-- Initializing every entity again. -/
  | reset (rest : List Request) (s : Session) :
      TakesUp rules fuel (.requests (.reset true :: rest), s)
        (.requests (s.world.entities.ids.map .init),
          (s.onWorld World.reset).write .info .script "script state reset")
  | timers (rest : List Request) (s : Session) :
      TakesUp rules fuel (.requests (.timers :: rest), s) (.sweep s.world.clock fuel 0, s)
  | drain (limit : Nat) (rest : List Request) (s : Session) :
      TakesUp rules fuel (.requests (.drain limit :: rest), s)
        (.drain limit 0 (List.range s.world.queue.capacity), s)
  | heartbeat (rest : List Request) (s : Session) :
      TakesUp rules fuel (.requests (.heartbeat :: rest), s)
        (.beats (min rules.config.heartbeatBatch s.world.entities.size), s)
  | fires {now : Duration} {steps i : Nat} {x : Timer} {s : Session}
      (hFires : s.fires? now i = some x) :
      TakesUp rules fuel (.sweep now (steps + 1) i, s)
        (.dispatch (.line fuel x.script x.owner x.pos (some x.name)), s.firing now i x)
  | visited {now : Duration} {steps i : Nat} {s t : Session}
      (hSlot : i < s.world.timers.slots.size) (hVisit : rules.visitTimer fuel now i s = .ok () t) :
      TakesUp rules fuel (.sweep now (steps + 1) i, s) (.sweep now steps (i + 1), t)
  | delivers {limit delivered i : Nat} {rest : List Nat} {p : Pending} {s : Session}
      (hSlot : s.world.queue.slot? i = some p)
      (hLive : s.world.entities.contains p.event.target = true) :
      TakesUp rules fuel (.drain limit delivered (i :: rest), s)
        (.dispatch (.event fuel (p.delivery s)), s)
  | drained {limit delivered i : Nat} {rest : List Nat} {sent : Bool} {s t : Session}
      (hVisit : rules.visitSlot fuel i s = .ok sent t)
      (hRoom : sent = true → 0 < limit → delivered + 1 < limit) :
      TakesUp rules fuel (.drain limit delivered (i :: rest), s)
        (.drain limit (delivered + sent.toNat) rest, t)
  | beats {n : Nat} {id : EntityId} {s : Session}
      (hNext : s.world.entities.nextLive? s.world.heartbeat = some id) :
      TakesUp rules fuel (.beats (n + 1), s)
        (.dispatch (.event fuel {
            target := id
            event := ((s.world.entities.get? id).map Entity.mainEvent).getD (.fixed .main) }),
          s.onWorld fun w => { w with heartbeat := id.index + 1 })
  | beaten {n : Nat} {s t : Session} (hBeat : rules.beat fuel s = .ok true t) :
      TakesUp rules fuel (.beats (n + 1), s) (.beats n, t)
  | overriding {n : Nat} {d : Delivery} {e : Entity} {s : Session} (hReceives : s.Receives d e) :
      TakesUp rules fuel (.dispatch (.event n d), s) (.dispatch (.hearing n d e.overriding), s)
  | own {n : Nat} {d : Delivery} {e : Entity} {v : Verdict} {s t : Session}
      (hReceives : s.Receives d e)
      (hOverriding : (Stage.hearing n d e.overriding).perform rules s = .ok v t)
      (hVerdict : v ≠ .refuse ∧ v ≠ .destructive)
      (hLive : t.world.entities.contains d.target = true) :
      TakesUp rules fuel (.dispatch (.event n d), s) (.dispatch (.hearing n d e.script), t)
  | entered {n pos : Nat} {d : Delivery} {script : Script} {s : Session}
      (hHeader : script.eventStart? d.event = some pos) (hEnters : rules.Enters script d.event s) :
      TakesUp rules fuel (.dispatch (.hearing n d script), s)
        (.dispatch (.header n (rules.eventFrame d script pos)), s.deeper)
  | opened {n : Nat} {f g : Frame} {s t : Session}
      (hOpened : f.perform Act.openEvent s = .ok (true, g) t) :
      TakesUp rules fuel (.dispatch (.header n f), s) (.dispatch (.frame n g), t)
  | sent {n : Nat} {f g : Frame} {e : Send} {stance : Stance} {s t : Session}
      (hTurn : f.perform (Act.turn rules.registry f.stance) s = .ok (.send e stance, g) t) :
      TakesUp rules fuel (.dispatch (.frame (n + 1) f), s)
        (.dispatch (.event n {
          sender := some f.invocation.entity, target := e.target, event := e.event
          parameters := e.parameters }), t)
  | passed {n : Nat} {f g : Frame} {s t : Session} (hPass : rules.pass n f s = .ok (.inr g) t) :
      TakesUp rules fuel (.dispatch (.frame (n + 1) f), s) (.dispatch (.frame n g), t)
  | line {n pos : Nat} {script : Script} {entity : EntityId} {timer : Option String} {s : Session}
      (hLive : s.world.entities.contains entity = true) (hEnters : rules.Enters script .line s) :
      TakesUp rules fuel (.dispatch (.line n script entity pos timer), s)
        (.dispatch (.frame n (rules.lineFrame script entity pos timer)), s.deeper)

/-- The return points of a frame that is taken up are boundaries. -/
def Task.Resumable : Task → Prop
  | .dispatch (.header _ f) => f.Resumable
  | .dispatch (.frame _ f) => f.Resumable
  | _ => True

namespace Rules

open EntityScript.Action (Resumes)

variable {rules : Rules}

/-- A dispatch takes up the frames that it goes on in. -/
theorem leads_of_walk? {check : Frame → Frame → Bool} {fuel n : Nat} {x y : Frame × Session}
    (h : rules.walk? check n x = some y) :
    Leads (rules.TakesUp fuel) (.dispatch (.frame n x.1), x.2) (.dispatch (.frame 0 y.1), y.2) := by
  induction n generalizing x with
  | zero =>
      cases h
      exact .refl
  | succ n ih =>
      obtain ⟨z, hNext, hRest⟩ := Option.bind_eq_some_iff.mp h
      split at hRest
      · exact .head (.passed (pass_of_next? hNext)) (ih hRest)
      · cases hRest

theorem openEvent_returns {f g : Frame} {opened : Bool} {s t : Session} (hf : f.Resumable)
    (h : f.perform Act.openEvent s = .ok (opened, g) t) : g.Resumable := by
  obtain ⟨hOpen, hInvocation, _⟩ := Frame.perform_ok h
  have hEnds := Act.openEvent_steady _ (Advance.refl f.invocation ⟨s, f.pos, f.calls⟩).onward
  rw [Act.Ends, hOpen] at hEnds
  have hCalls : g.calls = f.calls := hEnds.1.calls
  unfold Frame.Resumable
  rw [hInvocation, hCalls]
  exact hf

variable (hRegistry : rules.registry.OfBuiltins)

include hRegistry

theorem pass_returns {n : Nat} {f g : Frame} {s t : Session} (hf : f.Resumable)
    (h : rules.pass n f s = .ok (.inr g) t) : g.Resumable := by
  obtain ⟨turn, q, hTurn, hInvocation, _, hCalls, _⟩ := passWith_inr h
  have hPerform : f.perform (Act.turn rules.registry f.stance) s =
      .ok (turn, { f with pos := q.pos, calls := q.calls }) q.session := by
    rw [Frame.perform, hTurn]
  have hTaken := turn_returns hRegistry hf hPerform
  unfold Frame.Resumable
  rw [hInvocation, hCalls]
  exact hTaken

/-- Whatever is taken up next, nothing is kept but boundaries. -/
theorem TakesUp.resumable {fuel : Nat} {x y : Task × Session} (h : rules.TakesUp fuel x y)
    (hTask : x.1.Resumable) (hSession : x.2.Resumable) : y.1.Resumable ∧ y.2.Resumable := by
  cases h with
  | next r rest s => exact ⟨True.intro, perform_resumes hRegistry fuel r s hSession⟩
  | send => exact ⟨True.intro, hSession⟩
  | peek => exact ⟨True.intro, hSession⟩
  | init => exact ⟨True.intro, hSession⟩
  | initEnd hInit _ => exact ⟨True.intro, (deliver_resumes hRegistry fuel _).of_ok hSession hInit⟩
  | execute => exact ⟨True.intro, hSession.of_same rfl⟩
  | tick => exact ⟨True.intro, hSession.of_same rfl⟩
  | reset => exact ⟨True.intro, .of_no_timers rfl⟩
  | timers => exact ⟨True.intro, hSession⟩
  | drain => exact ⟨True.intro, hSession⟩
  | heartbeat => exact ⟨True.intro, hSession⟩
  | fires hFires => exact ⟨True.intro, hSession.firing hFires⟩
  | visited _ hVisit =>
      exact ⟨True.intro, (visitTimer_resumes hRegistry fuel _ _).of_ok hSession hVisit⟩
  | delivers => exact ⟨True.intro, hSession⟩
  | drained hVisit _ =>
      exact ⟨True.intro, (visitSlot_resumes hRegistry fuel _).of_ok hSession hVisit⟩
  | beats => exact ⟨True.intro, hSession.of_same rfl⟩
  | beaten hBeat => exact ⟨True.intro, (beat_resumes hRegistry fuel).of_ok hSession hBeat⟩
  | overriding => exact ⟨True.intro, hSession⟩
  | @own n d e v s t _ hOverriding _ _ =>
      have hHeard : Resumes (rules.deliverTo (rules.run n) d e.overriding) :=
        deliverTo_resumes (run_resumes hRegistry n) d e.overriding
      exact ⟨True.intro, hHeard.of_ok hSession hOverriding⟩
  | entered => exact ⟨nofun, hSession.of_same rfl⟩
  | opened hOpened =>
      exact ⟨openEvent_returns hTask hOpened, (openEvent_resumes _).of_ok hSession hOpened⟩
  | sent hTurn => exact ⟨True.intro, (turn_resumes hRegistry _).of_ok hSession hTurn⟩
  | passed hPass =>
      exact ⟨pass_returns hRegistry hTask hPass, (pass_resumes hRegistry _ _).of_ok hSession hPass⟩
  | line => exact ⟨nofun, hSession.of_same rfl⟩

end Rules

namespace Engine

/-- Offsets that are kept never lie beyond the text or inside a character. For any script these are the
places behind its labels and behind the headers of its events. And whatever is asked of a new engine, at
everything that it takes up in the course of it, these are the places where timers run their lines and
the return points of the dispatch, and they still are after the next command, also if that halts. -/
theorem resume_points_at_boundaries (config : Config) (loaded : Option Suppressions) (host : Host)
    (fuel : Nat) (requests : List Request) :
    (∀ script : Script, (∀ entry ∈ script.labels, script.Boundary entry.2) ∧
      (∀ label pos, script.label? label = some pos → script.Boundary pos) ∧
      ∀ event pos, script.eventStart? event = some pos → script.Boundary pos) ∧
    ∀ x s, Leads ((start config loaded host).rules.TakesUp fuel)
        (.requests requests, (start config loaded host).session) (x, s) →
      s.Resumable ∧ ∀ n f, x = .dispatch (.frame n f) → f.Resumable ∧
        ((f.perform (Act.turn (start config loaded host).rules.registry f.stance)).state
          s).Resumable ∧
        ∀ turn g t, f.perform (Act.turn (start config loaded host).rules.registry f.stance) s =
          .ok (turn, g) t → g.Resumable := by
  have hRegistry : (start config loaded host).rules.registry.OfBuiltins := by
    dsimp only [start]
    exact Registry.builtins_ofBuiltins
  refine ⟨fun script => ⟨fun entry hEntry => ?_, fun label pos hLabel => ?_, fun event pos hEvent => ?_⟩,
    fun x s hLeads => ?_⟩
  · exact (Script.valid_of_mem_labels (Script.mem_of_mem_labels hEntry)).boundary
  · exact (Script.label?_valid hLabel).boundary
  · exact (Script.eventStart?_valid hEvent).boundary
  have hStart : (start config loaded host).session.Resumable := .of_no_timers rfl
  obtain ⟨hTask, hSession⟩ : x.Resumable ∧ s.Resumable :=
    hLeads.keeps (P := fun y : Task × Session => y.1.Resumable ∧ y.2.Resumable)
      (fun h hStep => hStep.resumable hRegistry h.1 h.2) ⟨True.intro, hStart⟩
  refine ⟨hSession, ?_⟩
  rintro n f rfl
  exact ⟨hTask, Rules.turn_resumes hRegistry f s hSession, fun turn g t hTurn =>
    Rules.turn_returns hRegistry hTask hTurn⟩

/-- A line that calls a subroutine, in which a timer is started. -/
def southText : String := "gosub süd\n>>süd\ntimerwatch 2 5 inc §n 1\nreturn\n"

def southRequests : List Request := [.spawn { className := "npc" }, .execute ⟨0⟩ southText]

set_option maxRecDepth 100000 in
/-- Behind letters of two bytes, the subroutine returns to the end of the first line, and the timer runs
the rest of the third. -/
theorem resume_points_at_boundaries_south :
    ∃ f s c t, Leads ((start { seed := some 0 } none .silent).rules.TakesUp 2)
        (.requests southRequests, (start { seed := some 0 } none .silent).session)
        (.dispatch (.frame 0 f), s) ∧
      f.calls = [c] ∧ c.returnPos = 10 ∧ f.invocation.script.Boundary c.returnPos ∧
      s.world.timers.slot? 0 = some t ∧ t.pos = 33 ∧ t.script.Boundary t.pos := by
  let e := start { seed := some 0 } none .silent
  let script := Script.ofRaw consoleName southText
  let spawned := ((Request.spawn { className := "npc" }).perform e.rules 2).state e.session
  let noted := spawned.noteScript script
  have hWalk : ((e.rules.walk? (fun _ _ => true) 2
      (e.rules.lineFrame script ⟨0⟩ 0 none, noted.deeper)).any fun y =>
        (y.1.calls.map Call.returnPos, (y.2.world.timers.slot? 0).map Timer.pos) =
          ([10], some 33)) = true := by decide +kernel
  have hLive : spawned.world.entities.contains ⟨0⟩ = true := by decide +kernel
  have hEnters : e.rules.Enters script .line noted := Rules.enters_iff.mpr (by decide +kernel)
  obtain ⟨⟨f, s⟩, hFound, hCheck⟩ := (Option.any_eq_true _ _).mp hWalk
  obtain ⟨hCalls, hTimer⟩ := Prod.mk.inj (of_decide_eq_true hCheck)
  obtain ⟨c, hCall, hReturn⟩ := List.map_eq_singleton_iff.mp hCalls
  obtain ⟨t, hSlot, hPos⟩ := Option.map_eq_some_iff.mp hTimer
  have hLeads : Leads (e.rules.TakesUp 2) (.requests southRequests, e.session)
      (.dispatch (.frame 0 f), s) :=
    .head (.next _ _ _) (.head (.execute hLive) (.head (.line hLive hEnters)
      (Rules.leads_of_walk? hFound)))
  obtain ⟨hTimers, hFrames⟩ :=
    (resume_points_at_boundaries { seed := some 0 } none .silent 2 southRequests).2 _ s hLeads
  have hReturns := (hFrames 0 f rfl).1 c
  refine ⟨f, s, c, t, hLeads, hCall, hReturn, ?_, hSlot, hPos, hTimers 0 t hSlot⟩
  exact hReturns (hCall ▸ List.mem_singleton_self c)

end Engine

end EntityScript
