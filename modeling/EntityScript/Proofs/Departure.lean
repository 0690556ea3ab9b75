import EntityScript.Proofs.Account
import EntityScript.Proofs.Ownership

/-! The verdict of a dispatch tells whether its entity is gone. Of the commands only the one that takes
an entity away ends a dispatch as destructive, and only if that is the entity of the script. An entity
that is taken away in a dispatch inside is found gone behind the command that led there. -/
namespace EntityScript

/-- The entity is live before and gone afterwards. -/
def Session.Departs (id : EntityId) (s t : Session) : Prop :=
  s.world.entities.contains id = true ∧ t.world.entities.contains id = false

/-- Taking an entity away leaves none of its handle. -/
theorem Session.destroy_gone (id : EntityId) (s : Session) :
    (s.destroy id).2.world.entities.contains id = false := by
  unfold destroy
  cases hEntity : s.world.entities.get? id with
  | none =>
      dsimp only
      rw [EntityTable.contains_eq, hEntity]
      rfl
  | some e => exact EntityTable.contains_remove_self _ _

/-- The other entities stay. -/
theorem Session.destroy_spares {id gone : EntityId} (hOther : id ≠ gone) {s : Session}
    (h : s.world.entities.contains id = true) :
    (s.destroy gone).2.world.entities.contains id = true := by
  unfold destroy
  cases s.world.entities.get? gone with
  | none => exact h
  | some e => exact EntityTable.contains_remove_ne hOther h

namespace Act

/-- The entity that the script runs for is live. -/
def Live (inv : Invocation) (s : Session) : Prop := s.world.entities.contains inv.entity = true

/-- Nothing that commands do to a live entity but its end takes it away. -/
theorem serves_live (inv : Invocation) : Serves (Session.Only (Live inv)) inv inv := by
  apply Serves.of_kept
  · intro s f hs hLook
    rw [Live, hLook.entities]
    exact hs
  · intro s f hs hDeed
    rw [Live, hDeed.contains]
    exact hs

variable {inv : Invocation} {α β : Type} {parts : α → Prop} {parts' : β → Prop}

/-- For a live entity the act comes to a value that says whether the entity is gone behind it. -/
def Tells (inv : Invocation) (parts : α → Prop) (act : Act α) : Prop :=
  ∀ p a q, Live inv p.session → act inv p = .ok a q → (parts a ↔ ¬ Live inv q.session)

namespace Tells

/-- An act that takes nothing away says so. -/
theorem of_twin {act : Act α} (h : Twin (Session.Only (Live inv)) inv inv (¬ parts ·) act) :
    Tells inv parts act := by
  intro p a q hLive hRun
  obtain ⟨hStays, hStill⟩ := h.kept hLive hRun
  exact ⟨fun hParts => absurd hParts hStays, fun hGone => absurd hStill hGone⟩

/-- What comes first takes nothing away. -/
theorem after {x : Act α} {f : α → Act β}
    (hx : Twin (Session.Only (Live inv)) inv inv (fun _ => True) x)
    (hf : ∀ a, Tells inv parts' (f a)) : Tells inv parts' (x >>= f) := by
  intro p b q hLive hRun
  rw [bind_apply] at hRun
  cases hFirst : x inv p with
  | ok a r =>
      rw [hFirst] at hRun
      exact hf a r b q (hx.kept hLive hFirst).2 hRun
  | error halt r =>
      rw [hFirst] at hRun
      cases hRun

/-- Going on with a value that says so, without changing the session. -/
theorem report {x : Act α} {f : α → Act β} (hx : Tells inv parts x)
    (hf : ∀ a q, ∃ b, f a inv q = .ok b q ∧ (parts' b ↔ parts a)) : Tells inv parts' (x >>= f) := by
  intro p b q hLive hRun
  rw [bind_apply] at hRun
  cases hFirst : x inv p with
  | ok a r =>
      rw [hFirst] at hRun
      obtain ⟨b', hReport, hSame⟩ := hf a r
      have hTells := hx p a r hLive hFirst
      dsimp only at hRun
      rw [hReport] at hRun
      cases hRun
      exact hSame.trans hTells
  | error halt r =>
      rw [hFirst] at hRun
      cases hRun

end Tells

/-- The reply, or the turn, ends the dispatch as one whose entity is gone. -/
theorem answer_reports (stance : Stance) (r : Reply) (q : Progress) :
    ∃ turn, answer stance r inv q = .ok turn q ∧
      (turn = .finish .destructive ↔ r = .finish .destructive) := by
  cases r with
  | jumped => exact ⟨_, rfl, by simp⟩
  | finish v => exact ⟨_, rfl, by simp⟩
  | _ => exact ⟨_, rfl, by simp⟩

end Act

namespace Command

open Act

/-- An entity that is taken away ends the dispatch if it is that of the script. -/
theorem runDestroy_tells (inv : Invocation) : Tells inv (· = Reply.finish .destructive) runDestroy := by
  have hServes := serves_live inv
  apply Tells.after (hServes.word.mono fun _ _ => True.intro)
  intro w
  apply Tells.after (hServes.resolve? w)
  intro found
  cases found with
  | none => exact .of_twin ((hServes.token _ _ _).andThen fun _ => .pure nofun)
  | some id =>
      intro p r q hLive hRun
      cases hRun
      by_cases hSelf : id = inv.entity
      · subst hSelf
        simp [Live, p.session.destroy_gone inv.entity]
      · have hStill := Session.destroy_spares (Ne.symm hSelf) hLive
        simp [hSelf, Live, hStill]

theorem builtins_tell {c : Command} (h : c ∈ builtins) (inv : Invocation) :
    Tells inv (· = Reply.finish .destructive) c.run := by
  rcases builtins_cases h with ⟨_, hRun⟩ | hTwin
  · rw [hRun]
    exact runDestroy_tells inv
  · exact .of_twin (hTwin (serves_live inv))

end Command

namespace Act

variable {inv : Invocation} {registry : Registry}

theorem obey_tells {c : Command} (hCommand : c ∈ Command.builtins) (word : String) :
    Tells inv (· = Reply.finish .destructive) (obey c word) := by
  have hServes := serves_live inv
  apply Tells.after (mayGive_twin hServes.toSees c)
  intro allowed
  cases allowed with
  | true =>
      apply Tells.after (.of_reading fun p p' hp => ⟨inv, True.intro, rfl, rfl⟩)
      intro inv'
      split
      · exact .of_twin (.pure nofun)
      · exact Command.builtins_tell hCommand inv
  | false => exact .of_twin ((passOver_twin hServes.toWatches word).mono fun _ hr => hr.2)

theorem follow_tells (hRegistry : registry.OfBuiltins) (stance : Stance) (word : String) :
    Tells inv (· = Turn.finish .destructive) (follow registry stance word) := by
  have hServes := serves_live inv
  unfold follow
  cases hCommand : registry.find? word with
  | some c => exact (obey_tells (hRegistry.find? hCommand).1 word).report (answer_reports stance)
  | none =>
      split
      · contradiction
      · apply Tells.after (.of_reading fun p p' hp => ⟨inv, True.intro, rfl, rfl⟩)
        intro inv'
        split
        · exact .of_twin (.pure nofun)
        · exact Tells.report (.of_twin (Command.runTimer_twin hServes _)) (answer_reports stance)
      · exact .of_twin ((passWord_twin hServes.toWatches stance word).mono fun _ hTurn => hTurn.2)

/-- A turn ends its dispatch as destructive exactly if the entity of the script is gone behind it. -/
theorem turn_tells (hRegistry : registry.OfBuiltins) (stance : Stance) :
    Tells inv (· = Turn.finish .destructive) (turn registry stance) := by
  have hServes := serves_live inv
  apply Tells.after (hServes.command _)
  intro word
  split
  · exact .of_twin ((endText_twin hServes.toSees stance).mono fun _ hTurn => hTurn.2)
  · exact .after (announce_twin hServes.toSees word) fun _ => follow_tells hRegistry stance word

end Act

/-- For a live entity the dispatch comes to a verdict that says whether the entity is gone behind
it. -/
def Action.Tells (id : EntityId) (act : Action Verdict) : Prop :=
  ∀ s v t, s.world.entities.contains id = true → act s = .ok v t →
    (v = .destructive ↔ t.world.entities.contains id = false)

namespace Rules

open EntityScript.Action (Tells)

variable {rules : Rules} {id : EntityId}

theorem nested_tells {script : Script} {event : EventName} {act : Action Verdict}
    (hAct : Tells id act) : Tells id (rules.nested script event act) := by
  intro s v t hLive hRun
  by_cases hDeep : rules.config.maxDepth ≤ s.world.depth
  · rw [nested_abort rules script event act hDeep] at hRun
    cases hRun
    simp [Session.write, hLive]
  · rw [nested_enter rules script event act hDeep, Action.bind_apply] at hRun
    cases hInner : act (s.onWorld fun w => { w with depth := w.depth + 1 }) with
    | ok w u =>
        have hTells := hAct (s.onWorld fun w => { w with depth := w.depth + 1 }) w u hLive hInner
        rw [hInner] at hRun
        cases hRun
        exact hTells
    | error halt u =>
        rw [hInner] at hRun
        cases hRun

/-- Whether its entity is gone or not, a dispatch that goes on says so in the end. -/
theorem proceed_tells {fuel : Nat} {f : Frame} (hRun : Tells f.invocation.entity (rules.run fuel f))
    {s t : Session} {v : Verdict} (h : rules.proceed fuel f s = .ok v t) :
    v = .destructive ↔ t.world.entities.contains f.invocation.entity = false := by
  unfold proceed at h
  rw [Action.get_bind] at h
  by_cases hLive : s.world.entities.contains f.invocation.entity = true
  · rw [if_pos hLive] at h
    exact hRun s v t hLive h
  · rw [if_neg hLive] at h
    cases h
    simpa using hLive

variable (hRegistry : rules.registry.OfBuiltins)

include hRegistry

theorem run_tells (fuel : Nat) (f : Frame) : Tells f.invocation.entity (rules.run fuel f) := by
  induction fuel generalizing f with
  | zero =>
      intro s v t _ hRun
      cases hRun
  | succ fuel ih =>
      intro s v t hLive hRun
      rw [run_turn, Action.bind_apply] at hRun
      cases hTurn : f.perform (Act.turn rules.registry f.stance) s with
      | error halt u =>
          rw [hTurn] at hRun
          cases hRun
      | ok result u =>
          obtain ⟨turn, g⟩ := result
          obtain ⟨hAct, hSame, _⟩ := Frame.perform_ok hTurn
          have hTells := Act.turn_tells hRegistry f.stance ⟨s, f.pos, f.calls⟩ _ _ hLive hAct
          rw [hTurn] at hRun
          dsimp only at hRun
          rw [← hSame]
          cases turn with
          | finish w =>
              cases hRun
              simpa [Act.Live, hSame] using hTells
          | go stance => exact proceed_tells (ih { g with stance }) hRun
          | send e stance =>
              dsimp only at hRun
              rw [Action.bind_apply] at hRun
              split at hRun
              · exact proceed_tells (ih { g with stance }) hRun
              · cases hRun

theorem deliverTo_tells (fuel : Nat) (d : Delivery) (script : Script) :
    Tells d.target (rules.deliverTo (rules.run fuel) d script) := by
  unfold deliverTo
  cases script.eventStart? d.event with
  | none =>
      intro s v t hLive hRun
      cases hRun
      simp [hLive]
  | some header =>
      apply nested_tells
      intro s v t hLive hRun
      dsimp only at hRun
      rw [Action.bind_apply] at hRun
      split at hRun
      · rename_i result u hOpened
        obtain ⟨opened, g⟩ := result
        obtain ⟨hAct, hSame, _⟩ := Frame.perform_ok hOpened
        have hKept := fun h => (Act.openEvent_twin (Act.serves_live _).toWatches).kept h hAct
        have hStill := (hKept hLive).2
        cases opened with
        | true =>
            have hTells := run_tells hRegistry fuel g u v t
            rw [hSame] at hTells
            exact hTells hStill hRun
        | false =>
            cases hRun
            simpa [Act.Live] using hStill
      · cases hRun

theorem deliver_departs {fuel : Nat} {d : Delivery} {s t : Session} {v : Verdict}
    (hRun : rules.deliver fuel d s = .ok v t) : v = .destructive ↔ s.Departs d.target t := by
  unfold deliver deliverWith at hRun
  rw [Action.get_bind] at hRun
  unfold Session.Departs
  rw [EntityTable.contains_eq s.world.entities]
  cases hTarget : s.world.entities.get? d.target with
  | none =>
      rw [hTarget] at hRun
      cases hRun
      simp
  | some e =>
      rw [hTarget] at hRun
      have hLive : s.world.entities.contains d.target = true := by
        rw [EntityTable.contains_eq, hTarget]
        rfl
      simp only [Option.isSome_some, true_and]
      dsimp only at hRun
      split at hRun
      · cases hRun
        simp [hLive]
      split at hRun
      · cases hRun
        simp [hLive]
      rw [Action.bind_apply] at hRun
      cases hFirst : rules.deliverTo (rules.run fuel) d e.overriding s with
      | error halt u =>
          rw [hFirst] at hRun
          cases hRun
      | ok w u =>
          have hTells := deliverTo_tells hRegistry fuel d e.overriding s w u hLive hFirst
          rw [hFirst] at hRun
          dsimp only at hRun
          rw [Action.get_bind] at hRun
          split at hRun
          · cases hRun
            exact hTells
          · rename_i hOn
            have hBoth : (¬ w = .refuse ∧ ¬ w = .destructive) ∧
                u.world.entities.contains d.target = true := by simpa using hOn
            exact deliverTo_tells hRegistry fuel d e.script u v t hBoth.2 hRun

theorem runLine_departs {fuel : Nat} {script : Script} {pos : Nat} {timer : Option String}
    {s t : Session} {v : Verdict} (hRun : rules.runLine fuel script id pos timer s = .ok v t) :
    v = .destructive ↔ s.Departs id t := by
  unfold runLine at hRun
  rw [Action.get_bind] at hRun
  by_cases hLive : s.world.entities.contains id = true
  · rw [if_pos hLive] at hRun
    have hTells := nested_tells (run_tells hRegistry fuel _) s v t hLive hRun
    simp [hTells, Session.Departs, hLive]
  · rw [if_neg hLive] at hRun
    cases hRun
    simp [Session.Departs, hLive]

omit hRegistry in
/-- What a request about an entity gives comes from the entity while it is live. -/
theorem about_ok {α : Type} {act : Action α} {a : α} {s t : Session}
    (h : about id act s = .ok (.ok a) t) : act s = .ok a t := by
  unfold about at h
  rw [Action.get_bind] at h
  split at h
  · rw [Action.bind_apply] at h
    split at h
    · rename_i hAct
      cases h
      exact hAct
    · cases h
  · cases h

/-- A dispatch that returns is destructive exactly if its entity was live before and is gone
afterwards, whether it took itself away or went in a dispatch inside. This goes for events, from the
game or from a script, and for lines, of a timer or of the console. -/
theorem destructive_iff_departs (fuel : Nat) {s t : Session} {v : Verdict} :
    (∀ d, rules.deliver fuel d s = .ok v t → (v = .destructive ↔ s.Departs d.target t)) ∧
    (∀ d, rules.send fuel d s = .ok (.ok v) t → (v = .destructive ↔ s.Departs d.target t)) ∧
    (∀ script id pos timer, rules.runLine fuel script id pos timer s = .ok v t →
      (v = .destructive ↔ s.Departs id t)) ∧
    ∀ id text, rules.execute fuel id text s = .ok (.ok v) t →
      (v = .destructive ↔ s.Departs id t) := by
  refine ⟨?_, ?_, ?_, ?_⟩
  · intro d hRun
    exact deliver_departs hRegistry hRun
  · intro d hRun
    exact deliver_departs hRegistry (about_ok hRun)
  · intro script id pos timer hRun
    exact runLine_departs hRegistry hRun
  · intro id text hRun
    have hLine := about_ok hRun
    rw [Action.modify_bind] at hLine
    have hDeparts := runLine_departs hRegistry hLine
    exact hDeparts

/-- Two entities: the first sends the second an event, which is answered by one that makes the first
destroy itself. -/
def boomerangSession : Session :=
  ((Session.spawn { className := "npc", script := some (.ofNormal "caller"
      "on init \x7b\n sendevent hit npc_0002\n accept\n\x7d\non back \x7b\n destroy self\n\x7d\n") }
    ⟨.ofConfig plain.config, .silent, #[]⟩).2.spawn { className := "npc", script := some (.ofNormal
      "echo" "on hit \x7b\n sendevent back npc_0001\n accept\n\x7d\n") }).2

omit hRegistry in
set_option maxRecDepth 100000 in
/-- The first is gone two dispatches further in, and its own dispatch is destructive. -/
theorem destructive_iff_departs_boomerang :
    ∃ t, plain.deliver 9 { target := ⟨0⟩, event := .fixed .init } boomerangSession =
        .ok .destructive t ∧ boomerangSession.Departs ⟨0⟩ t := by
  have hRun : Result.passes (fun v _ => v = .destructive)
      (plain.deliver 9 { target := ⟨0⟩, event := .fixed .init } boomerangSession) = true := by
    decide +kernel
  obtain ⟨v, t, hDeliver, hVerdict⟩ := Result.exists_of_passes hRun
  obtain rfl := of_decide_eq_true hVerdict
  have hDeparts := (@destructive_iff_departs plain Registry.builtins_ofBuiltins 9 _ _ _).1 _ hDeliver
  exact ⟨t, hDeliver, hDeparts.mp rfl⟩

end Rules

end EntityScript
