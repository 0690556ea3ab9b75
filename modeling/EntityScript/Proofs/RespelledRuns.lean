import EntityScript.Proofs.Depth
import EntityScript.Proofs.RespelledTurns

/-! Whole dispatches in two spellings of the scripts of a session. If words with two spellings are read as
commands only, an event comes to the same verdict in both, with the same variables. -/
namespace EntityScript

theorem Action.discard_bind {α β : Type} (x : Action α) (k : Action β) :
    (discard x >>= fun _ => k) = (x >>= fun _ => k) := by
  change ((x >>= fun _ => Pure.pure ()) >>= fun _ => k) = _
  simp only [bind_assoc, pure_bind]

namespace Session

/-- Every entity was there before, with the same scripts. -/
def Casts (s t : Session) : Prop :=
  ∀ m ∈ t.world.entities.members, ∃ n ∈ s.world.entities.members,
    n.1 = m.1 ∧ n.2.script = m.2.script ∧ n.2.overriding = m.2.overriding

theorem Casts.of_same {s t : Session} (h : t.world.entities = s.world.entities) : s.Casts t :=
  fun m hm => ⟨m, h ▸ hm, rfl, rfl, rfl⟩

theorem Casts.trans {s t u : Session} (hst : s.Casts t) (htu : t.Casts u) : s.Casts u := by
  intro m hm
  obtain ⟨n, hn, hName, hScript, hOverriding⟩ := htu m hm
  obtain ⟨k, hk, hName', hScript', hOverriding'⟩ := hst n hn
  exact ⟨k, hk, hName'.trans hName, hScript'.trans hScript, hOverriding'.trans hOverriding⟩

/-- No change that a dispatch makes gives an entity another script. -/
theorem Stir.casts {s t : Session} (h : Stir s t) : s.Casts t := by
  cases h with
  | look hLook => exact .of_same hLook.entities
  | deed hLive hDeed =>
      cases hDeed with
      | modify hf =>
          intro m hm
          simp only [onWorld, EntityTable.modify, List.mem_map] at hm
          obtain ⟨n, hn, rfl⟩ := hm
          refine ⟨n, hn, ?_⟩
          split
          · exact ⟨rfl, (hf n.2).1.symm, (hf n.2).2.symm⟩
          · exact ⟨rfl, rfl, rfl⟩
      | enqueue => exact .of_same (enqueue_entities _ _)
      | _ => exact .of_same rfl
  | destroy id =>
      unfold Session.destroy
      split
      · exact .of_same rfl
      · exact fun m hm => ⟨m, (List.mem_filter.mp hm).1, rfl, rfl, rfl⟩
  | depth => exact .of_same rfl

theorem casts_of_stirs {s t : Session} (h : Leads Stir s t) : s.Casts t :=
  h.keeps (fun hPrior hStir => hPrior.trans hStir.casts) (.of_same rfl)

end Session

namespace Act

variable {registry : Registry} {stance : Stance} {inv : Invocation} {p : Progress} {α : Type}

/-- For a live entity, the act leads from session to session by what dispatches change. -/
def Stirs (act : Act α) : Prop :=
  ∀ inv p, p.session.world.entities.contains inv.entity = true →
    Leads Session.Stir p.session (act.state inv p).session

/-- What an act keeps in step with itself. -/
theorem kept_of_paired {act : Act α} {P : Session → Prop} {Q : α → Prop}
    (h : Paired (Progress.Beside (Session.Only P)) Q (act inv p) (act inv p)) :
    P (act.state inv p).session := by
  unfold state
  generalize act inv p = r at h ⊢
  cases h with
  | ok _ hState => exact hState.session.2
  | error hState => exact hState.session.2

theorem turn_stirs (hRegistry : registry.OfBuiltins) (stance : Stance) :
    Stirs (turn registry stance) := by
  intro inv p hLive
  have hT := Session.Congruence.of_stirs (P := Leads Session.Stir p.session)
    (fun _ _ hPrior => hPrior.tail) inv.suppressions
  exact kept_of_paired (turn_paired (fun _ _ h => h.1)
    (fun hFind => hRegistry.inStep hT _ _ hFind _ rfl) (hT.serves rfl) rfl stance
    ⟨⟨⟨rfl, .refl⟩, hLive⟩, rfl, rfl⟩)

/-- Opening the block of an event ends no entity. -/
theorem openEvent_stays (inv : Invocation) (p : Progress)
    (hLive : p.session.world.entities.contains inv.entity = true) :
    Leads Session.Stir p.session (openEvent.state inv p).session ∧
      (openEvent.state inv p).session.world.entities.contains inv.entity = true := by
  have hT := Session.Congruence.of_stirs (P := Leads Session.Stir p.session)
    (fun _ _ hPrior => hPrior.tail) inv.suppressions
  have hServes : Serves (Session.WhileLive (Session.Only (Leads Session.Stir p.session)) inv.entity)
      inv inv := hT.serves rfl
  have hTwin := openEvent_twin hServes.toWatches p p ⟨⟨⟨rfl, .refl⟩, hLive⟩, rfl, rfl⟩
  refine kept_of_paired (P := fun t => Leads Session.Stir p.session t ∧
    t.world.entities.contains inv.entity = true) (hTwin.mono fun _ _ h => h.mono fun _ _ hBoth => ?_)
  exact ⟨hBoth.1.1, hBoth.1.2, hBoth.1.1 ▸ hBoth.2⟩

end Act

namespace Script

/-- One script in two spellings, as the table tells that its text is spelled. -/
structure Recast (parts : Script → List Part) (suppressions : Suppressions) (s s' : Script) : Prop where
  original : s = edition s.name (parts s) .original
  respelled : s' = edition s.name (parts s) .respelled
  spelling : Respelling (parts s)
  resumes : Resumes (parts s) s.name suppressions

end Script

variable {parts : Script → List Part} {suppressions : Suppressions} {s s' t t' : Session}

/-- Sessions with the same game and the same world, but for the spelling of the scripts: each entity of
both has its scripts in two spellings. -/
structure Session.Recast (parts : Script → List Part) (suppressions : Suppressions) (s s' : Session) :
    Prop where
  world : s'.world.bare = s.world.bare
  host : s'.host = s.host
  scripts : ∀ m ∈ s.world.entities.members, ∀ m' ∈ s'.world.entities.members, m'.1 = m.1 →
    Script.Recast parts suppressions m.2.script m'.2.script ∧
      Script.Recast parts suppressions m.2.overriding m'.2.overriding

/-- Whatever becomes of the two worlds, their entities keep their scripts. -/
theorem Session.Recast.leads (h : s.Recast parts suppressions s') (hWorld : t'.world.bare = t.world.bare)
    (hHost : t'.host = t.host) (hLeads : Leads Stir s t) (hLeads' : Leads Stir s' t') :
    t.Recast parts suppressions t' := by
  refine ⟨hWorld, hHost, fun m hm m' hm' hName => ?_⟩
  obtain ⟨n, hn, hId, hScript, hOverriding⟩ := casts_of_stirs hLeads m hm
  obtain ⟨n', hn', hId', hScript', hOverriding'⟩ := casts_of_stirs hLeads' m' hm'
  have hBoth := h.scripts n hn n' hn' (hId'.trans (hName.trans hId.symm))
  rwa [hScript, hScript', hOverriding, hOverriding'] at hBoth

theorem Session.Recast.depth (h : s.Recast parts suppressions s') (f : Nat → Nat) :
    (s.onWorld fun w => { w with depth := f w.depth }).Recast parts suppressions
      (s'.onWorld fun w => { w with depth := f w.depth }) :=
  h.leads (congrArg (fun w : World => { w with depth := f w.depth }) h.world) h.host
    (.tail .refl (.depth f s)) (.tail .refl (.depth f s'))

theorem Session.Recast.write (h : s.Recast parts suppressions s') (level : Level) (topic : Topic)
    (message message' : String) :
    (s.write level topic message).Recast parts suppressions (s'.write level topic message') :=
  h.leads h.world h.host (.tail .refl (.look (@Look.write .empty _ _ _ _)))
    (.tail .refl (.look (@Look.write .empty _ _ _ _)))

theorem Session.Recast.contains (h : s.Recast parts suppressions s') (id : EntityId) :
    s'.world.entities.contains id = s.world.entities.contains id := by
  have hBare (w : World) : w.bare.entities.contains id = w.entities.contains id :=
    w.entities.contains_modifyAll _ _
  rw [← hBare s'.world, h.world, hBare]

/-- The same entity is there in both sessions, or in none. -/
theorem Session.Recast.get? (h : s.Recast parts suppressions s') (id : EntityId) :
    (s.world.entities.get? id = none ∧ s'.world.entities.get? id = none) ∨
      ∃ e e', s.world.entities.get? id = some e ∧ s'.world.entities.get? id = some e' ∧
        e'.bare = e.bare ∧ Script.Recast parts suppressions e.script e'.script ∧
        Script.Recast parts suppressions e.overriding e'.overriding := by
  have hBare (w : World) : w.bare.entities.get? id = (w.entities.get? id).map Entity.bare :=
    w.entities.get?_modifyAll _ _
  have hSame : (s'.world.entities.get? id).map Entity.bare = (s.world.entities.get? id).map Entity.bare := by
    rw [← hBare, ← hBare, h.world]
  cases hOriginal : s.world.entities.get? id with
  | none =>
      rw [hOriginal] at hSame
      exact .inl ⟨rfl, Option.map_eq_none_iff.mp hSame⟩
  | some e =>
      rw [hOriginal] at hSame
      obtain ⟨e', hRespelled, hBoth⟩ := Option.map_eq_some_iff.mp hSame
      exact .inr ⟨e, e', rfl, hRespelled, hBoth, h.scripts _ (EntityTable.mem_of_get? hOriginal) _
        (EntityTable.mem_of_get? hRespelled) rfl⟩

/-- A dispatch at the same part of a script in two spellings. -/
structure Frame.Recast (parts : Script → List Part) (suppressions : Suppressions) (f f' : Frame) : Prop where
  script : Script.Recast parts suppressions f.invocation.script f'.invocation.script
  invocation : f'.invocation = f.invocation.within f'.invocation.script
  suppressions : f.invocation.suppressions = suppressions
  stance : f'.stance = f.stance
  calls : Script.Returns (parts f.invocation.script) f.calls f'.calls
  pos : Script.Parallel (parts f.invocation.script) (Edition.pick f.pos f'.pos)

/-- Performed in two frames, the act comes to the same, and at the same part of the script. -/
abbrev Frame.Matches {α : Type} (parts : Script → List Part) (f f' : Frame) (s s' : Session) (act : Act α) :
    Prop :=
  Outcomes (Progress.SameWorld (Script.Returns (parts f.invocation.script)))
    (Progress.Aligned (Script.Returns (parts f.invocation.script)) (parts f.invocation.script))
    (fun _ => True) (act f.invocation ⟨s, f.pos, f.calls⟩) (act f'.invocation ⟨s', f'.pos, f'.calls⟩)

theorem Frame.Recast.aligned {f f' : Frame} (hf : f.Recast parts suppressions f')
    (hs : s.Recast parts suppressions s') :
    Progress.Aligned (Script.Returns (parts f.invocation.script)) (parts f.invocation.script)
      ⟨s, f.pos, f.calls⟩ ⟨s', f'.pos, f'.calls⟩ := ⟨hs.world, hs.host, hf.calls, hf.pos⟩

/-- What comes to the same in the two spellings does so in the two frames. -/
theorem Frame.Recast.matches {α : Type} {f f' : Frame} (hf : f.Recast parts suppressions f') {act : Act α}
    (hBoth : Outcomes (Progress.SameWorld (Script.Returns (parts f.invocation.script)))
      (Progress.Aligned (Script.Returns (parts f.invocation.script)) (parts f.invocation.script))
      (fun _ => True)
      (act (f.invocation.within (Script.edition f.invocation.script.name
        (parts f.invocation.script) .original)) ⟨s, f.pos, f.calls⟩)
      (act (f.invocation.within (Script.edition f.invocation.script.name
        (parts f.invocation.script) .respelled)) ⟨s', f'.pos, f'.calls⟩)) :
    f.Matches parts f' s s' act := by
  rw [← hf.script.original, ← hf.script.respelled, ← hf.invocation] at hBoth
  exact hBoth

/-- Going on behind an act that comes to the same in both spellings. -/
theorem Frame.Recast.perform {α β : Type} {f f' : Frame} (hf : f.Recast parts suppressions f')
    (hs : s.Recast parts suppressions s') {act : Act α} {Q : β → Prop} {k k' : α × Frame → Action β}
    (hAct : f.Matches parts f' s s' act)
    (hStirs : Leads Session.Stir s (act.state f.invocation ⟨s, f.pos, f.calls⟩).session)
    (hStirs' : Leads Session.Stir s' (act.state f'.invocation ⟨s', f'.pos, f'.calls⟩).session)
    (hk : ∀ a g g' t t', f.perform act s = .ok (a, g) t → g.Recast parts suppressions g' →
      g.invocation = f.invocation → t.Recast parts suppressions t' →
      Paired (Session.Recast parts suppressions) Q (k (a, g) t) (k' (a, g') t')) :
    Paired (Session.Recast parts suppressions) Q ((f.perform act >>= k) s) ((f'.perform act >>= k') s') := by
  rw [Action.bind_apply, Action.bind_apply]
  unfold Frame.Matches at hAct
  unfold Frame.perform at hk ⊢
  unfold Act.state at hStirs hStirs'
  generalize act f.invocation ⟨s, f.pos, f.calls⟩ = r at hAct hStirs hk ⊢
  generalize act f'.invocation ⟨s', f'.pos, f'.calls⟩ = r' at hAct hStirs' ⊢
  cases hAct with
  | ok _ hState =>
      refine hk _ _ _ _ _ rfl ?_ rfl (hs.leads hState.world hState.host hStirs hStirs')
      exact ⟨hf.script, hf.invocation, hf.suppressions, hf.stance, hState.calls, hState.pos⟩
  | error hState => exact .error (hs.leads hState.world hState.host hStirs hStirs')

/-- Beside a computation that comes to a value, the other comes to it too. -/
theorem Outcomes.ok_of_eq {σ α : Type} {E R : σ → σ → Prop} {Q : α → Prop}
    {x y : EStateM.Result Halt σ α} (h : Outcomes E R Q x y) {a : α} {t : σ} (hx : x = .ok a t) :
    ∃ t', y = .ok a t' ∧ R t t' := by
  subst hx
  cases h with
  | ok _ hState => exact ⟨_, rfl, hState⟩

/-- What comes of a computation has a property; at a halt nothing does. -/
def Result.Allows {ε σ α : Type} (P : α → σ → Prop) : EStateM.Result ε σ α → Prop
  | .ok a s => P a s
  | .error _ _ => True

instance {ε σ α : Type} {P : α → σ → Prop} [∀ a s, Decidable (P a s)] :
    ∀ r : EStateM.Result ε σ α, Decidable (Result.Allows P r)
  | .ok a s => inferInstanceAs (Decidable (P a s))
  | .error _ _ => inferInstanceAs (Decidable True)

namespace Rules

/-- Dispatched to a script, an event begins behind a header that no word with two spellings belongs to,
and its block spares such words. -/
def HearingSpares (rules : Rules) (parts : Script → List Part) (spares : Frame → Session → Prop)
    (d : Delivery) (script : Script) (s : Session) : Prop :=
  (∀ header ∈ Script.header? d.event, Script.Heads header (parts script)) ∧
    ∀ pos ∈ script.eventStart? d.event, s.world.depth < rules.config.maxDepth →
      Result.Allows (fun opened t => opened.1 = true → spares opened.2 t)
        ((rules.eventFrame d script pos).perform Act.openEvent s.deeper)

instance (rules : Rules) (parts : Script → List Part) (spares : Frame → Session → Prop)
    [∀ f t, Decidable (spares f t)] (d : Delivery) (script : Script) (s : Session) :
    Decidable (rules.HearingSpares parts spares d script s) :=
  inferInstanceAs (Decidable (_ ∧ _))

/-- Dispatched to an entity, an event spares words with two spellings in the scripts that hear it. -/
def DeliverySpares (rules : Rules) (parts : Script → List Part) (run : Frame → Action Verdict)
    (spares : Frame → Session → Prop) (d : Delivery) (s : Session) : Prop :=
  ∀ e ∈ s.world.entities.get? d.target,
    rules.HearingSpares parts spares d e.overriding s ∧
      Result.Allows (fun v t => v ≠ .refuse → v ≠ .destructive →
          t.world.entities.contains d.target = true → rules.HearingSpares parts spares d e.script t)
        (rules.deliverTo run d e.overriding s)

instance (rules : Rules) (parts : Script → List Part) (run : Frame → Action Verdict)
    (spares : Frame → Session → Prop) [∀ f t, Decidable (spares f t)] (d : Delivery) (s : Session) :
    Decidable (rules.DeliverySpares parts run spares d s) :=
  inferInstanceAs (Decidable (∀ e ∈ s.world.entities.get? d.target, _))

/-- The event that a turn sends. -/
def sentBy (sender : EntityId) (e : Send) : Delivery :=
  { sender := some sender, target := e.target, event := e.event, parameters := e.parameters }

/-- What follows a turn of a frame spares words with two spellings: the dispatch of the event that it
sends, and the rest of the run. -/
def NextSpares (rules : Rules) (parts : Script → List Part) (run : Frame → Action Verdict)
    (spares : Frame → Session → Prop) (g : Frame) (t : Session) : Turn → Prop
  | .finish _ => True
  | .go stance => t.world.entities.contains g.invocation.entity = true → spares { g with stance } t
  | .send e stance =>
    rules.DeliverySpares parts run spares (sentBy g.invocation.entity e) t ∧
      Result.Allows (fun _ u => u.world.entities.contains g.invocation.entity = true →
          spares { g with stance } u)
        (rules.deliverWith run (sentBy g.invocation.entity e) t)

instance (rules : Rules) (parts : Script → List Part) (run : Frame → Action Verdict)
    (spares : Frame → Session → Prop) [∀ f t, Decidable (spares f t)] (g : Frame) (t : Session) :
    ∀ turn, Decidable (rules.NextSpares parts run spares g t turn)
  | .finish _ => inferInstanceAs (Decidable True)
  | .go _ => inferInstanceAs (Decidable (_ → _))
  | .send _ _ => inferInstanceAs (Decidable (_ ∧ _))

/-- With so much fuel, a frame and the dispatches of the events that it sends read no word with two
spellings as something else than a command. -/
def Spares (rules : Rules) (parts : Script → List Part) : Nat → Frame → Session → Prop
  | 0, _, _ => True
  | fuel + 1, f, s =>
    Result.Allows (fun word q => Act.Spares rules.registry (parts f.invocation.script) word f.invocation q)
        (Act.hear f.stance f.invocation ⟨s, f.pos, f.calls⟩) ∧
      Result.Allows (fun next t =>
          rules.NextSpares parts (rules.run fuel) (Spares rules parts fuel) next.2 t next.1)
        (f.perform (Act.turn rules.registry f.stance) s)

instance instDecidableSpares (rules : Rules) (parts : Script → List Part) :
    ∀ fuel f s, Decidable (rules.Spares parts fuel f s)
  | 0, _, _ => inferInstanceAs (Decidable True)
  | fuel + 1, _, _ =>
    have := instDecidableSpares rules parts fuel
    inferInstanceAs (Decidable (_ ∧ _))

variable {rules : Rules}

/-- Dispatches are entered and left in the same way. -/
theorem nested_respelled (script script' : Script) (event : EventName) {act act' : Action Verdict}
    (hs : s.Recast parts suppressions s')
    (hAct : s.world.depth < rules.config.maxDepth → s.deeper.Recast parts suppressions s'.deeper →
      Paired (Session.Recast parts suppressions) (fun _ => True) (act s.deeper) (act' s'.deeper)) :
    Paired (Session.Recast parts suppressions) (fun _ => True) (rules.nested script event act s)
      (rules.nested script' event act' s') := by
  have hDepth : s'.world.depth = s.world.depth := (congrArg World.depth hs.world :)
  by_cases hDeep : rules.config.maxDepth ≤ s.world.depth
  · rw [nested_abort rules script event act hDeep,
      nested_abort rules script' event act' (by rw [hDepth]; exact hDeep)]
    exact .ok True.intro (hs.write _ _ _ _)
  · rw [nested_enter rules script event act hDeep,
      nested_enter rules script' event act' (by rw [hDepth]; exact hDeep)]
    refine (hAct (Nat.lt_of_not_le hDeep) (hs.depth (· + 1))).action_bind fun v t t' _ ht => ?_
    exact .ok True.intro (ht.depth (· - 1))

/-- The frames in which the block of an event begins. -/
theorem eventFrame_recast {script script' : Script}
    (hScript : Script.Recast parts rules.suppressions script script') (d : Delivery) {pos pos' : Nat}
    (hPos : Script.Parallel (parts script) (Edition.pick pos pos')) :
    (rules.eventFrame d script pos).Recast parts rules.suppressions (rules.eventFrame d script' pos') :=
  ⟨hScript, rfl, rfl, rfl, .nil, hPos⟩

/-- An event comes to the same in both spellings of a script, if the runs of its block do. -/
theorem deliverTo_respelled {run : Frame → Action Verdict} {spares : Frame → Session → Prop}
    (hRun : ∀ f f' t t', f.Recast parts rules.suppressions f' → t.Recast parts rules.suppressions t' →
      t.world.entities.contains f.invocation.entity = true → spares f t →
      Paired (Session.Recast parts rules.suppressions) (fun _ => True) (run f t) (run f' t'))
    {script script' : Script} (hScript : Script.Recast parts rules.suppressions script script')
    (d : Delivery) (hs : s.Recast parts rules.suppressions s')
    (hLive : s.world.entities.contains d.target = true)
    (hSpares : rules.HearingSpares parts spares d script s) :
    Paired (Session.Recast parts rules.suppressions) (fun _ => True) (rules.deliverTo run d script s)
      (rules.deliverTo run d script' s') := by
  have hStart := hScript.spelling.eventStart? script.name d.event hSpares.1
  rw [← hScript.original, ← hScript.respelled] at hStart
  unfold deliverTo
  rcases hStart with ⟨hNone, hNone'⟩ | ⟨pos, pos', hSome, hSome', hPos⟩
  · rw [hNone, hNone']
    exact .ok True.intro hs
  · rw [hSome, hSome']
    refine nested_respelled script script' d.event hs fun hDepth hDeeper => ?_
    have hOpens := hSpares.2 pos hSome hDepth
    have hLive' : s'.deeper.world.entities.contains d.target = true := by
      rw [hDeeper.contains]
      exact hLive
    have hFrame := eventFrame_recast hScript d hPos
    have hStays := Act.openEvent_stays (rules.eventFrame d script pos).invocation ⟨s.deeper, pos, []⟩ hLive
    have hStays' := Act.openEvent_stays (rules.eventFrame d script' pos').invocation ⟨s'.deeper, pos', []⟩
      hLive'
    have hOpening := hFrame.matches (Act.openEvent_keeps hScript.spelling _ _ (hFrame.aligned hDeeper))
    refine hFrame.perform hDeeper hOpening hStays.1 hStays'.1
      fun opened g g' t t' hOpened hg hSame ht => ?_
    rw [hOpened] at hOpens
    cases opened with
    | false => exact .ok True.intro ht
    | true =>
        have hThere := hStays.2
        have hAct := (Frame.perform_ok hOpened).1
        change Act.openEvent (rules.eventFrame d script pos).invocation ⟨s.deeper, pos, []⟩ = _ at hAct
        rw [Act.state, hAct, ← hSame] at hThere
        exact hRun g g' t t' hg ht hThere (hOpens rfl)

/-- An event comes to the same in both sessions, if the runs of its blocks do. -/
theorem deliverWith_respelled {run : Frame → Action Verdict} {spares : Frame → Session → Prop}
    (hRun : ∀ f f' t t', f.Recast parts rules.suppressions f' → t.Recast parts rules.suppressions t' →
      t.world.entities.contains f.invocation.entity = true → spares f t →
      Paired (Session.Recast parts rules.suppressions) (fun _ => True) (run f t) (run f' t'))
    (d : Delivery) (hs : s.Recast parts rules.suppressions s')
    (hSpares : rules.DeliverySpares parts run spares d s) :
    Paired (Session.Recast parts rules.suppressions) (fun _ => True) (rules.deliverWith run d s)
      (rules.deliverWith run d s') := by
  unfold deliverWith
  rw [Action.get_bind, Action.get_bind]
  rcases hs.get? d.target with ⟨hNone, hNone'⟩ | ⟨e, e', hSome, hSome', hBare, hScript, hOverriding⟩
  · rw [hNone, hNone']
    exact .ok True.intro hs
  · rw [hSome, hSome']
    have hLive : s.world.entities.contains d.target = true := by
      rw [EntityTable.contains_eq, hSome]
      rfl
    obtain ⟨hFirst, hSecond⟩ := hSpares e hSome
    have hAllows : e'.allows d.event = e.allows d.event := (congrArg (Entity.allows · d.event) hBare :)
    have hZone : e'.inZone = e.inZone := (congrArg Entity.inZone hBare :)
    dsimp only
    rw [hAllows, hZone]
    refine Outcomes.ite (fun _ => .ok True.intro hs) fun _ => ?_
    refine Outcomes.ite (fun _ => .ok True.intro hs) fun _ => ?_
    have hOverrides := deliverTo_respelled hRun hOverriding d hs hLive hFirst
    rw [Action.bind_apply, Action.bind_apply]
    generalize rules.deliverTo run d e.overriding s = r at hOverrides hSecond ⊢
    generalize rules.deliverTo run d e'.overriding s' = r' at hOverrides ⊢
    cases hOverrides with
    | error hState => exact .error hState
    | @ok v t t' _ ht =>
        dsimp only
        rw [Action.get_bind, Action.get_bind, ht.contains]
        refine Outcomes.ite (fun _ => .ok True.intro ht) fun hOn => ?_
        have hBoth : (¬ v = .refuse ∧ ¬ v = .destructive) ∧
            t.world.entities.contains d.target = true := by simpa using hOn
        exact deliverTo_respelled hRun hScript d ht hBoth.2 (hSecond hBoth.1.1 hBoth.1.2 hBoth.2)

/-- Going on in a frame comes to the same, if the run does. -/
theorem proceed_respelled {fuel : Nat} {f f' : Frame} (hEntity : f'.invocation.entity = f.invocation.entity)
    (hs : s.Recast parts rules.suppressions s')
    (hRun : s.world.entities.contains f.invocation.entity = true →
      Paired (Session.Recast parts rules.suppressions) (fun _ => True) (rules.run fuel f s)
        (rules.run fuel f' s')) :
    Paired (Session.Recast parts rules.suppressions) (fun _ => True) (rules.proceed fuel f s)
      (rules.proceed fuel f' s') := by
  unfold proceed
  rw [Action.get_bind, Action.get_bind, hEntity, hs.contains]
  exact Outcomes.ite hRun fun _ => .ok True.intro hs

/-- Runs come to the same in both spellings. -/
theorem run_respelled (hRegistry : rules.registry.OfBuiltins) (fuel : Nat) (f f' : Frame) (s s' : Session)
    (hf : f.Recast parts rules.suppressions f') (hs : s.Recast parts rules.suppressions s')
    (hLive : s.world.entities.contains f.invocation.entity = true) (hSpares : rules.Spares parts fuel f s) :
    Paired (Session.Recast parts rules.suppressions) (fun _ => True) (rules.run fuel f s)
      (rules.run fuel f' s') := by
  induction fuel generalizing f f' s s' with
  | zero => exact .error hs
  | succ fuel ih =>
      obtain ⟨hWord, hNext⟩ := hSpares
      have hEntity : f'.invocation.entity = f.invocation.entity := by
        rw [hf.invocation]
        rfl
      have hLive' : s'.world.entities.contains f'.invocation.entity = true := by
        rw [hs.contains, hEntity]
        exact hLive
      have hTurn : f.Matches parts f' s s' (Act.turn rules.registry f.stance) := by
        refine hf.matches (Act.turn_outcomes hf.script.spelling hRegistry
          (hf.suppressions ▸ hf.script.resumes) (hf.aligned hs) fun word q hHeard => ?_)
        rw [← hf.script.original] at hHeard ⊢
        change Act.hear f.stance f.invocation ⟨s, f.pos, f.calls⟩ = _ at hHeard
        rw [hHeard] at hWord
        exact hWord
      rw [run_turn, run_turn, hf.stance]
      refine hf.perform hs hTurn (Act.turn_stirs hRegistry _ f.invocation ⟨s, f.pos, f.calls⟩ hLive)
        (Act.turn_stirs hRegistry _ f'.invocation ⟨s', f'.pos, f'.calls⟩ hLive')
        fun turn g g' t t' hPerform hg _ ht => ?_
      have hSame' : g'.invocation.entity = g.invocation.entity := by
        rw [hg.invocation]
        rfl
      have hOn {u u' : Session} (stance : Stance) (hu : u.Recast parts rules.suppressions u')
          (hThere : u.world.entities.contains g.invocation.entity = true →
            rules.Spares parts fuel { g with stance } u) :
          Paired (Session.Recast parts rules.suppressions) (fun _ => True)
            (rules.proceed fuel { g with stance } u) (rules.proceed fuel { g' with stance } u') := by
        refine proceed_respelled hSame' hu fun hStill => ?_
        exact ih _ _ _ _ ⟨hg.script, hg.invocation, hg.suppressions, rfl, hg.calls, hg.pos⟩ hu hStill
          (hThere hStill)
      rw [hPerform] at hNext
      cases turn with
      | finish v => exact .ok True.intro ht
      | go stance => exact hOn stance ht hNext
      | send e stance =>
          obtain ⟨hSent, hBehind⟩ := hNext
          have hDelivered := deliverWith_respelled (ih · · · · · · · ·) _ ht hSent
          change Paired _ _ ((discard (rules.deliver fuel (sentBy g.invocation.entity e)) >>= fun _ =>
              rules.proceed fuel { g with stance }) t)
            ((discard (rules.deliver fuel (sentBy g'.invocation.entity e)) >>= fun _ =>
              rules.proceed fuel { g' with stance }) t')
          rw [hSame', Action.discard_bind, Action.discard_bind, Action.bind_apply,
            Action.bind_apply]
          unfold deliver
          generalize rules.deliverWith (rules.run fuel) (sentBy g.invocation.entity e) t = r
            at hDelivered hBehind ⊢
          generalize rules.deliverWith (rules.run fuel) (sentBy g.invocation.entity e) t' = r'
            at hDelivered ⊢
          cases hDelivered with
          | error hState => exact .error hState
          | ok _ hState => exact hOn stance hState hBehind

/-- The spelling of commands does not matter. Let the scripts of two sessions be the same but for the
spelling of words that the registry takes for the same command, `if` and `else` being written so in both
scripts or in none; and let an event be dispatched in one of them so that no such word is read as something
else than a command. Then its dispatch in the other comes to the same verdict, or to the same halt, and
leaves the same variables. -/
theorem deliver_respelled (hRegistry : rules.registry.OfBuiltins) (fuel : Nat) (d : Delivery)
    (hs : s.Recast parts rules.suppressions s')
    (hSpares : rules.DeliverySpares parts (rules.run fuel) (rules.Spares parts fuel) d s) :
    Paired (fun t t' => t.Recast parts rules.suppressions t' ∧
        t'.world.globals = t.world.globals ∧ ∀ id,
          (t'.world.entities.get? id).map Entity.locals = (t.world.entities.get? id).map Entity.locals)
      (fun _ => True) (rules.deliver fuel d s) (rules.deliver fuel d s') := by
  have hDelivered := deliverWith_respelled (run_respelled hRegistry fuel) d hs hSpares
  refine hDelivered.mono fun t t' ht => ⟨ht, (congrArg World.globals ht.world :), fun id => ?_⟩
  rcases ht.get? id with ⟨hNone, hNone'⟩ | ⟨e, e', hSome, hSome', hBare, _⟩
  · rw [hNone, hNone']
  · rw [hSome, hSome']
    exact congrArg some (congrArg Entity.locals hBare :)

end Rules

/-- Parts that both spellings have. -/
def Part.shared (t : String) : List Part := t.toList.map .same

/-- A word that is written in two ways. -/
def Part.spelled (original respelled : String) : List Part :=
  [.word (Edition.pick original.toList respelled.toList)]

open EntityScript.Part in
/-- A script that passes over commands in both branches of conditions inside one another. -/
def branchingParts : List Part :=
  [shared "on init \x7b\n ", spelled "set" "s_et", shared " $x a\n if ($x == b) \x7b\n  if ($x == a) ",
    spelled "set" "set_", shared " $x c\n \x7d\n else if ($x == a) ", spelled "set" "_set",
    shared " $x d\n else ", spelled "refuse" "re_fuse", shared "\n ", spelled "accept" "a_c_cept",
    shared "\n\x7d\n"].flatten

/-- How the scripts of its session are spelled. -/
def branchingTable (script : Script) : List Part := if script.name = "branching" then branchingParts else []

/-- A session with one entity. -/
def soleSession (script : Script) : Session :=
  (Session.spawn { className := "npc", script := some script }
    ⟨.ofConfig Rules.plain.config, .silent, #[]⟩).2

/-- Two spellings of a script make two spellings of the session whose only entity has it. -/
theorem soleSession_recast {script script' : Script}
    (hScript : Script.Recast parts suppressions script script')
    (hEmpty : Script.Recast parts suppressions .empty .empty) :
    (soleSession script).Recast parts suppressions (soleSession script') := by
  have hMembers (script : Script) : ∀ m ∈ (soleSession script).world.entities.members,
      m.2.script = script ∧ m.2.overriding = .empty := by
    intro m hm
    obtain rfl := List.mem_singleton.mp hm
    exact ⟨rfl, rfl⟩
  refine ⟨rfl, rfl, fun m hm m' hm' _ => ?_⟩
  obtain ⟨hOwn, hOverriding⟩ := hMembers script m hm
  obtain ⟨hOwn', hOverriding'⟩ := hMembers script' m' hm'
  rw [hOwn, hOwn', hOverriding, hOverriding']
  exact ⟨hScript, hEmpty⟩

/-- That script in one of its spellings. -/
def branchingScript (e : Edition) : Script := .edition "branching" branchingParts e

theorem branchingTable_branching (e : Edition) : branchingTable (branchingScript e) = branchingParts := if_pos rfl

set_option maxRecDepth 100000 in
theorem branchingScript_recast : Script.Recast branchingTable Rules.plain.suppressions
    (branchingScript .original) (branchingScript .respelled) where
  original := by
    rw [branchingTable_branching]
    rfl
  respelled := by
    rw [branchingTable_branching]
    rfl
  spelling := by
    rw [branchingTable_branching]
    decide +kernel
  resumes _ _ := rfl

theorem emptyScript_recast : Script.Recast branchingTable Rules.plain.suppressions .empty .empty where
  original := rfl
  respelled := rfl
  spelling := by decide +kernel
  resumes _ _ := rfl

namespace Rules

set_option maxRecDepth 100000 in
/-- Both spellings accept, with the same variables. -/
theorem deliver_respelled_branching : ∃ t t',
    plain.deliver 9 { target := ⟨0⟩, event := .fixed .init } (soleSession (branchingScript .original)) =
      .ok .accept t ∧
    plain.deliver 9 { target := ⟨0⟩, event := .fixed .init } (soleSession (branchingScript .respelled)) =
      .ok .accept t' ∧
    t'.world.globals = t.world.globals ∧ ∀ id,
      (t'.world.entities.get? id).map Entity.locals = (t.world.entities.get? id).map Entity.locals := by
  have hRun : Result.passes (fun v _ => v = .accept) (plain.deliver 9
      { target := ⟨0⟩, event := .fixed .init } (soleSession (branchingScript .original))) = true := by
    decide +kernel
  obtain ⟨v, t, hAccepts, hVerdict⟩ := Result.exists_of_passes hRun
  obtain rfl := of_decide_eq_true hVerdict
  have hSpares : plain.DeliverySpares branchingTable (plain.run 9) (plain.Spares branchingTable 9)
      { target := ⟨0⟩, event := .fixed .init } (soleSession (branchingScript .original)) := by
    decide +kernel
  have hBoth := @deliver_respelled branchingTable _ _ plain Registry.builtins_ofBuiltins 9
    { target := ⟨0⟩, event := .fixed .init }
    (soleSession_recast branchingScript_recast emptyScript_recast) hSpares
  obtain ⟨t', hOther, hSame⟩ := hBoth.ok_of_eq hAccepts
  exact ⟨t, t', hAccepts, hOther, hSame.2⟩

end Rules

end EntityScript
