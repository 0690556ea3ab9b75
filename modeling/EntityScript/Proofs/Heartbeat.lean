import EntityScript.Proofs.Changes

/-! The heartbeat goes round the live entities. It comes to an entity again only when every live entity
has had its turn; how often it goes on is settled beforehand, so that happens if entities are taken away
whose turn is still to come. -/
namespace EntityScript

namespace EntityTable

variable {t : EntityTable} {id : EntityId}

theorem contains_iff : t.contains id = true ↔ id ∈ t.ids := by
  rw [contains, ids, List.any_eq_true, List.mem_map]
  exact exists_congr fun m => and_congr_right fun _ => decide_eq_true_iff

/-- The handles are in order, and the next one comes behind them. -/
structure Ordered (t : EntityTable) : Prop where
  sorted : t.ids.Pairwise fun a b => a.index < b.index
  below : ∀ id ∈ t.ids, id.index < t.next

namespace Ordered

/-- Where handles only go, their order stays. -/
theorem sublist {t' : EntityTable} (h : t.Ordered) (hIds : t'.ids.Sublist t.ids)
    (hNext : t'.next = t.next) : t'.Ordered :=
  ⟨h.sorted.sublist hIds, fun id hId => hNext ▸ h.below id (hIds.subset hId)⟩

theorem spawn (h : t.Ordered) (e : Entity) : (t.spawn e).2.Ordered := by
  have hIds : (t.spawn e).2.ids = t.ids ++ [⟨t.next⟩] := by
    simp [EntityTable.spawn, ids]
  have hNext : (t.spawn e).2.next = t.next + 1 := rfl
  constructor
  · rw [hIds, List.pairwise_append]
    refine ⟨h.sorted, List.pairwise_singleton _ _, fun a ha b hb => ?_⟩
    cases List.mem_singleton.mp hb
    exact h.below a ha
  · rw [hIds, hNext]
    exact List.forall_mem_append.mpr ⟨fun a ha => Nat.lt_succ_of_lt (h.below a ha),
      List.forall_mem_singleton.mpr (Nat.lt_succ_self _)⟩

theorem nodup (h : t.Ordered) : t.ids.Nodup :=
  h.sorted.imp fun hLess hSame => Nat.ne_of_lt hLess (congrArg EntityId.index hSame)

/-- The next live handle is the first from the index on, or the first of all if none is left there. -/
theorem nextLive? (h : t.Ordered) {index : Nat} (hNext : t.nextLive? index = some id) :
    id ∈ t.ids ∧
      ((index ≤ id.index ∧ ∀ x ∈ t.ids, index ≤ x.index → id.index ≤ x.index) ∨
        ((∀ x ∈ t.ids, x.index < index) ∧ ∀ x ∈ t.ids, id.index ≤ x.index)) := by
  unfold EntityTable.nextLive? at hNext
  cases hFind : t.ids.find? (index ≤ ·.index) with
  | some first =>
      rw [hFind] at hNext
      cases hNext
      obtain ⟨hMeets, before, after, hSplit, hBefore⟩ := List.find?_eq_some_iff_append.mp hFind
      refine ⟨List.mem_of_find?_eq_some hFind, .inl ⟨of_decide_eq_true hMeets, fun x hx hIndex => ?_⟩⟩
      have hSorted := h.sorted
      rw [hSplit] at hx hSorted
      rcases List.mem_append.mp hx with hEarly | hLate
      · have hNot := hBefore x hEarly
        simp [hIndex] at hNot
      · rcases List.mem_cons.mp hLate with rfl | hRest
        · exact Nat.le_refl _
        · exact Nat.le_of_lt (List.rel_of_pairwise_cons (List.pairwise_append.mp hSorted).2.1 hRest)
  | none =>
      rw [hFind] at hNext
      have hNone := List.find?_eq_none.mp hFind
      cases hIds : t.ids with
      | nil =>
          rw [hIds] at hNext
          cases hNext
      | cons first rest =>
          rw [hIds] at hNext hNone
          cases hNext
          have hSorted := h.sorted
          rw [hIds] at hSorted
          refine ⟨List.mem_cons_self, .inr ⟨fun x hx => by simpa using hNone x hx, fun x hx => ?_⟩⟩
          rcases List.mem_cons.mp hx with rfl | hRest
          · exact Nat.le_refl _
          · exact Nat.le_of_lt (List.rel_of_pairwise_cons hSorted hRest)

end Ordered

end EntityTable

namespace Session

variable {s t : Session}

/-- A dispatch takes entities away, adds none, and leaves the heartbeat where it is. -/
structure Thins (s t : Session) : Prop where
  ids : t.world.entities.ids.Sublist s.world.entities.ids
  next : t.world.entities.next = s.world.entities.next
  heartbeat : t.world.heartbeat = s.world.heartbeat

theorem Thins.of_ids (hIds : t.world.entities.ids = s.world.entities.ids)
    (hNext : t.world.entities.next = s.world.entities.next)
    (hHeartbeat : t.world.heartbeat = s.world.heartbeat) : Thins s t :=
  ⟨hIds ▸ .refl _, hNext, hHeartbeat⟩

theorem Thins.of_same (hEntities : t.world.entities = s.world.entities)
    (hHeartbeat : t.world.heartbeat = s.world.heartbeat) : Thins s t :=
  .of_ids (congrArg EntityTable.ids hEntities) (congrArg EntityTable.next hEntities) hHeartbeat

theorem Thins.trans {u : Session} (h : Thins s t) (h' : Thins t u) : Thins s u :=
  ⟨h'.ids.trans h.ids, h'.next.trans h.next, h'.heartbeat.trans h.heartbeat⟩

theorem enqueue_heartbeat (e : QueuedEvent) (s : Session) :
    (s.enqueue e).2.world.heartbeat = s.world.heartbeat := by
  rw [enqueue_world]

theorem Stir.thins (h : Stir s t) : Thins s t := by
  cases h with
  | look hLook => cases hLook <;> exact .of_same rfl rfl
  | deed _ hDeed =>
      cases hDeed with
      | modify => exact .of_ids (EntityTable.ids_modify _ _ _) rfl rfl
      | enqueue => exact .of_same (enqueue_entities _ _) (enqueue_heartbeat _ _)
      | _ => exact .of_same rfl rfl
  | destroy id =>
      unfold Session.destroy
      split
      · exact .of_same rfl rfl
      · exact ⟨List.filter_sublist.map _, rfl, rfl⟩
  | depth => exact .of_same rfl rfl

theorem Change.ordered (h : Change s t) (hs : s.world.entities.Ordered) :
    t.world.entities.Ordered := by
  cases h with
  | stir hStir => exact hs.sublist hStir.thins.ids hStir.thins.next
  | release => exact hs
  | queue =>
      rw [enqueue_entities]
      exact hs
  | spawn b =>
      rw [spawn_world]
      exact hs.spawn _
  | reset =>
      have hIds : (s.onWorld World.reset).world.entities.ids = s.world.entities.ids := by
        simp only [onWorld, World.reset, EntityTable.ids, EntityTable.modifyAll, List.map_map]
        rfl
      exact hs.sublist (hIds ▸ .refl _) rfl
  | timer => exact hs
  | plain hf => exact hs.sublist ((hf s.world).ids ▸ .refl _) (hf s.world).next

end Session

theorem Rules.Attains.ordered {rules : Rules} {s : Session} (h : rules.Attains s) :
    s.world.entities.Ordered :=
  h.invariant (P := fun s => s.world.entities.Ordered) (fun _ _ => ⟨.nil, nofun⟩)
    fun hs hChange => hChange.ordered hs

/-- A heartbeat between two beats, with the entities that were sent their main event so far. -/
structure Pulse where
  session : Session
  sent : List EntityId

namespace Pulse

variable {w v : Pulse} {start : Nat} {id : EntityId}

/-- The entity whose turn it is. -/
def next? (w : Pulse) : Option EntityId :=
  w.session.world.entities.nextLive? w.session.world.heartbeat

/-- How far a heartbeat has come that began at an index. -/
inductive Round (start : Nat) (w : Pulse) : Prop where
  /-- It has come from there up to an index. -/
  | first (hFrom : start ≤ w.session.world.heartbeat)
      (hSent : ∀ x ∈ w.sent, start ≤ x.index ∧ x.index < w.session.world.heartbeat)
      (hLive : ∀ x ∈ w.session.world.entities.ids, start ≤ x.index →
        x.index < w.session.world.heartbeat → x ∈ w.sent)
  /-- It has begun again with the first entity. -/
  | again (hSent : ∀ x ∈ w.sent, start ≤ x.index ∨ x.index < w.session.world.heartbeat)
      (hBehind : ∀ x ∈ w.session.world.entities.ids,
        x.index < w.session.world.heartbeat → x ∈ w.sent)
      (hRest : ∀ x ∈ w.session.world.entities.ids, start ≤ x.index → x ∈ w.sent)
  /-- Every live entity has had its turn. -/
  | all (hLive : ∀ x ∈ w.session.world.entities.ids, x ∈ w.sent)

/-- The turn comes to an entity again only when all have had theirs. -/
theorem Round.all_of_repeat (h : w.Round start) (hOrdered : w.session.world.entities.Ordered)
    (hNext : w.next? = some id) (hAgain : id ∈ w.sent) :
    ∀ x ∈ w.session.world.entities.ids, x ∈ w.sent := by
  intro x hx
  obtain ⟨_, ⟨hFrom, hLeast⟩ | ⟨hBelow, hLeast⟩⟩ := hOrdered.nextLive? hNext
  · cases h with
    | first _ hSent _ =>
        have := (hSent id hAgain).2
        omega
    | again hSent hBehind hRest =>
        by_cases hCome : x.index < w.session.world.heartbeat
        · exact hBehind x hx hCome
        · have := hSent id hAgain
          have := hLeast x hx (Nat.le_of_not_lt hCome)
          exact hRest x hx (by omega)
    | all hLive => exact hLive x hx
  · cases h with
    | first _ hSent hLive =>
        exact hLive x hx (Nat.le_trans (hSent id hAgain).1 (hLeast x hx)) (hBelow x hx)
    | again _ hBehind _ => exact hBehind x hx (hBelow x hx)
    | all hLive => exact hLive x hx

/-- The entity whose turn it is gets its event, and the heartbeat goes on behind it. -/
structure Goes (id : EntityId) (w v : Pulse) : Prop where
  next : w.next? = some id
  sent : v.sent = w.sent ++ [id]
  ids : v.session.world.entities.ids.Sublist w.session.world.entities.ids
  heartbeat : v.session.world.heartbeat = id.index + 1

namespace Goes

variable (h : w.Goes id v)

include h

theorem mem {x : EntityId} (hx : x ∈ w.sent) : x ∈ v.sent := h.sent ▸ List.mem_append_left _ hx

theorem mem_of_index_eq {x : EntityId} (hIndex : x.index = id.index) : x ∈ v.sent := by
  obtain ⟨_⟩ := x
  obtain rfl := hIndex
  exact h.sent ▸ List.mem_append_right _ (List.mem_singleton_self _)

theorem forall_sent {P : EntityId → Prop} (hOld : ∀ x ∈ w.sent, P x) (hNew : P id) :
    ∀ x ∈ v.sent, P x := by
  rw [h.sent]
  exact List.forall_mem_append.mpr ⟨hOld, List.forall_mem_singleton.mpr hNew⟩

theorem all (hLive : ∀ x ∈ w.session.world.entities.ids, x ∈ w.sent) : v.Round start :=
  .all fun x hx => h.mem (hLive x (h.ids.subset hx))

end Goes

theorem Round.goes (h : w.Round start) (hOrdered : w.session.world.entities.Ordered)
    (hGoes : w.Goes id v) : v.Round start := by
  have hCursor := hGoes.heartbeat
  have hSubset := hGoes.ids.subset
  obtain ⟨_, ⟨hFrom, hLeast⟩ | ⟨hBelow, hLeast⟩⟩ := hOrdered.nextLive? hGoes.next
  · -- Nobody is between the place from before and the entity whose turn it is.
    have hPassed (x : EntityId) (hx : x ∈ v.session.world.entities.ids)
        (hCome : x.index < v.session.world.heartbeat)
        (hEarlier : x.index < w.session.world.heartbeat → x ∈ w.sent) : x ∈ v.sent := by
      by_cases hLess : x.index < w.session.world.heartbeat
      · exact hGoes.mem (hEarlier hLess)
      · have := hLeast x (hSubset hx) (Nat.le_of_not_lt hLess)
        exact hGoes.mem_of_index_eq (by omega)
    cases h with
    | first hStart hTold hLive =>
        refine .first (by omega) (hGoes.forall_sent (fun x hx => ?_) (by omega)) ?_
        · have := hTold x hx
          omega
        · exact fun x hx hStart' hCome => hPassed x hx hCome (hLive x (hSubset hx) hStart')
    | again hTold hBehind hRest =>
        by_cases hPast : start ≤ id.index
        · refine hGoes.all fun x hx => ?_
          by_cases hEarlier : x.index < w.session.world.heartbeat
          · exact hBehind x hx hEarlier
          · exact hRest x hx (Nat.le_trans hPast (hLeast x hx (Nat.le_of_not_lt hEarlier)))
        · refine .again (hGoes.forall_sent (fun x hx => ?_) (.inr (by omega))) ?_ ?_
          · have := hTold x hx
            omega
          · exact fun x hx hCome => hPassed x hx hCome (hBehind x (hSubset hx))
          · exact fun x hx hStart => hGoes.mem (hRest x (hSubset hx) hStart)
    | all hLive => exact hGoes.all hLive
  · cases h with
    | first hStart hTold hLive =>
        by_cases hPast : start ≤ id.index
        · exact hGoes.all fun x hx =>
            hLive x hx (Nat.le_trans hPast (hLeast x hx)) (hBelow x hx)
        · refine .again (hGoes.forall_sent (fun x hx => .inl (hTold x hx).1) (.inr (by omega)))
            (fun x hx hCome => ?_) fun x hx hStart' =>
              hGoes.mem (hLive x (hSubset hx) hStart' (hBelow x (hSubset hx)))
          have := hLeast x (hSubset hx)
          exact hGoes.mem_of_index_eq (by omega)
    | again _ hBehind _ => exact hGoes.all fun x hx => hBehind x hx (hBelow x hx)
    | all hLive => exact hGoes.all hLive

end Pulse

namespace Rules

variable {rules : Rules} {fuel : Nat} {s : Session} {w v : Pulse} {id : EntityId}

/-- The cases of a beat. -/
theorem beat_apply (rules : Rules) (fuel : Nat) (s : Session) :
    rules.beat fuel s =
      match s.world.entities.nextLive? s.world.heartbeat with
      | none => .ok false s
      | some id =>
        match rules.deliver fuel
            { target := id
              event := ((s.world.entities.get? id).map Entity.mainEvent).getD (.fixed .main) }
            (s.onWorld fun w => { w with heartbeat := id.index + 1 }) with
        | .ok _ t => .ok true t
        | .error h t => .error h t := by
  unfold beat
  rw [Action.get_bind]
  cases s.world.entities.nextLive? s.world.heartbeat with
  | none => rfl
  | some id =>
      dsimp only
      rw [Action.modify_bind]
      change ((rules.deliver fuel _ >>= fun _ => pure ()) >>= fun _ => pure true : Action Bool) _ = _
      rw [Action.bind_apply, Action.bind_apply]
      cases rules.deliver fuel _ _ <;> rfl

theorem beat_none (rules : Rules) (fuel : Nat) (hNext : w.next? = none) :
    rules.beat fuel w.session = .ok false w.session := by
  unfold Pulse.next? at hNext
  rw [beat_apply, hNext]

theorem beat_some (rules : Rules) (fuel : Nat) (hNext : w.next? = some id) :
    ∃ t, rules.beat fuel w.session = .ok true t ∨ ∃ h, rules.beat fuel w.session = .error h t := by
  unfold Pulse.next? at hNext
  rw [beat_apply, hNext]
  dsimp only
  split
  · exact ⟨_, .inl rfl⟩
  · exact ⟨_, .inr ⟨_, rfl⟩⟩

/-- The heartbeat sends the main event to the entity whose turn it is, whatever comes of the
dispatch. -/
structure Beats (rules : Rules) (fuel : Nat) (w v : Pulse) : Prop where
  sent : ∃ id, w.next? = some id ∧ v.sent = w.sent ++ [id]
  session : v.session = (rules.beat fuel).state w.session

section OfBuiltins

variable (hRegistry : rules.registry.OfBuiltins)

include hRegistry

theorem deliver_thins (fuel : Nat) (d : Delivery) (s : Session) :
    s.Thins ((rules.deliver fuel d).state s) :=
  (deliver_stirs hRegistry fuel d s).keeps (P := s.Thins) (fun h last => h.trans last.thins)
    (.of_same rfl rfl)

theorem Beats.goes (h : rules.Beats fuel w v) : ∃ id, w.Goes id v := by
  obtain ⟨id, hNext, hSent⟩ := h.sent
  let event := ((w.session.world.entities.get? id).map Entity.mainEvent).getD (.fixed .main)
  have hThins := deliver_thins hRegistry fuel { target := id, event }
    (w.session.onWorld fun w => { w with heartbeat := id.index + 1 })
  have hState : v.session = (rules.deliver fuel { target := id, event }).state
      (w.session.onWorld fun w => { w with heartbeat := id.index + 1 }) := by
    rw [h.session, Action.state, Action.state, beat_apply]
    unfold Pulse.next? at hNext
    rw [hNext]
    dsimp only
    cases rules.deliver fuel _ _ <;> rfl
  rw [← hState] at hThins
  exact ⟨id, hNext, hSent, hThins.ids, hThins.heartbeat⟩

/-- Wherever a heartbeat has come, its round is kept. -/
theorem round_of_beats (hOrdered : s.world.entities.Ordered)
    (h : Leads (rules.Beats fuel) ⟨s, []⟩ w) :
    w.session.world.entities.Ordered ∧ w.Round s.world.heartbeat := by
  induction h with
  | refl => exact ⟨hOrdered, .first (Nat.le_refl _) nofun fun x _ hFrom hBefore => by
      dsimp only at hBefore
      omega⟩
  | tail _ hBeat ih =>
      obtain ⟨id, hGoes⟩ := hBeat.goes hRegistry
      refine ⟨?_, ih.2.goes ih.1 hGoes⟩
      rw [hBeat.session]
      exact (beat_changes hRegistry fuel _).keeps (P := fun s => s.world.entities.Ordered)
        (fun hs hChange => hChange.ordered hs) ih.1

end OfBuiltins

theorem beats_succ (rules : Rules) (fuel n : Nat) (s : Session) :
    rules.beats fuel (n + 1) s =
      match rules.beat fuel s with
      | .ok true t =>
        match rules.beats fuel n t with
        | .ok k u => .ok (k + 1) u
        | .error h u => .error h u
      | .ok false t => .ok 0 t
      | .error h t => .error h t := by
  rw [beats, Action.bind_apply]
  cases rules.beat fuel s with
  | error h t => rfl
  | ok more t =>
      cases more with
      | false => rfl
      | true =>
          change (rules.beats fuel n >>= fun sent => pure (sent + 1) : Action Nat) t = _
          rw [Action.bind_apply]
          dsimp only
          cases rules.beats fuel n t <;> rfl

/-- The beats of a heartbeat, up to its end or to a halt. -/
theorem beats_leads (rules : Rules) (fuel n : Nat) (w : Pulse) :
    ∃ v, Leads (rules.Beats fuel) w v ∧ v.session = (rules.beats fuel n).state w.session ∧
      v.sent.length ≤ w.sent.length + n ∧
      ∀ k t, rules.beats fuel n w.session = .ok k t → v.sent.length = w.sent.length + k := by
  induction n generalizing w with
  | zero =>
      refine ⟨w, .refl, rfl, Nat.le_refl _, fun k t hRun => ?_⟩
      cases hRun
      rfl
  | succ n ih =>
      unfold Action.state at ih ⊢
      rw [beats_succ]
      cases hNext : w.next? with
      | none =>
          rw [beat_none rules fuel hNext]
          refine ⟨w, .refl, rfl, Nat.le_add_right _ _, fun k t hRun => ?_⟩
          cases hRun
          rfl
      | some id =>
          obtain ⟨t, hBeat⟩ := beat_some rules fuel hNext
          have hStep : rules.Beats fuel w ⟨t, w.sent ++ [id]⟩ := by
            refine ⟨⟨id, hNext, rfl⟩, ?_⟩
            rcases hBeat with hBeat | ⟨_, hBeat⟩
            · rw [Action.state, hBeat]
            · rw [Action.state, hBeat]
          rcases hBeat with hBeat | ⟨_, hBeat⟩
          · rw [hBeat]
            obtain ⟨v, hLeads, hState, hMost, hCount⟩ := ih ⟨t, w.sent ++ [id]⟩
            rw [List.length_append, List.length_singleton] at hMost hCount
            refine ⟨v, hLeads.head hStep, ?_, by omega, fun k u hRun => ?_⟩
            · rw [hState]
              dsimp only
              cases rules.beats fuel n t <;> rfl
            · dsimp only at hRun
              split at hRun
              · rename_i k' u' hRest
                cases hRun
                have := hCount k' u hRest
                omega
              · cases hRun
          · rw [hBeat]
            refine ⟨_, .tail .refl hStep, rfl, ?_, fun k u hRun => ?_⟩
            · rw [List.length_append, List.length_singleton]
              omega
            · cases hRun

/-- What was sent stays sent. -/
theorem sent_goes_on (h : Leads (rules.Beats fuel) v w) : v.sent <+: w.sent :=
  h.keeps (P := fun m => v.sent <+: m.sent) (fun h hBeat => by
    obtain ⟨_, _, hSent⟩ := hBeat.sent
    exact h.trans ⟨_, hSent.symm⟩) (List.prefix_refl _)

section OfBuiltins

variable (hRegistry : rules.registry.OfBuiltins) (hOrdered : s.world.entities.Ordered)

include hRegistry hOrdered

/-- No entity was sent its main event twice exactly if each time one was left that had not got it. -/
theorem nodup_sent_iff (hw : Leads (rules.Beats fuel) ⟨s, []⟩ w) :
    w.sent.Nodup ↔ ∀ v v', Leads (rules.Beats fuel) ⟨s, []⟩ v → rules.Beats fuel v v' →
      Leads (rules.Beats fuel) v' w → ∃ id, v.session.world.entities.contains id = true ∧
        id ∉ v.sent := by
  constructor
  · intro hOnce v v' hv hBeat hRest
    obtain ⟨id, hGoes⟩ := hBeat.goes hRegistry
    have hNodup := hOnce.sublist (sent_goes_on hRest).sublist
    rw [hGoes.sent, List.nodup_append] at hNodup
    have hLive := ((round_of_beats hRegistry hOrdered hv).1.nextLive? hGoes.next).1
    exact ⟨id, EntityTable.contains_iff.mpr hLive, fun hAgain =>
      hNodup.2.2 id hAgain id (List.mem_singleton_self _) rfl⟩
  · intro hLeft
    induction hw with
    | refl => exact List.nodup_nil
    | @tail v v' hv hBeat ih =>
        obtain ⟨id, hGoes⟩ := hBeat.goes hRegistry
        obtain ⟨hSorted, hRound⟩ := round_of_beats hRegistry hOrdered hv
        have hOnce := ih fun m m' hm hStep hRest => hLeft m m' hm hStep (hRest.tail hBeat)
        obtain ⟨x, hLive, hWaits⟩ := hLeft v v' hv hBeat .refl
        rw [hGoes.sent, List.nodup_append]
        refine ⟨hOnce, List.pairwise_singleton _ _, ?_⟩
        rintro a ha b hb rfl
        cases List.mem_singleton.mp hb
        exact hWaits (hRound.all_of_repeat hSorted hGoes.next ha x
          (EntityTable.contains_iff.mp hLive))

end OfBuiltins

/-- A heartbeat sends the main event to one live entity after the other, no more often than its batch
and than there are live entities when it begins. It does not send it twice to an entity exactly if, each
time, a live entity is left that has not got it in this heartbeat; so it does not if no entity goes that
has not had its turn. -/
theorem heartbeat_once_iff (hRegistry : rules.registry.OfBuiltins) (hStart : rules.Attains s)
    (fuel : Nat) :
    ∃ w, Leads (rules.Beats fuel) ⟨s, []⟩ w ∧ w.session = (rules.heartbeat fuel).state s ∧
      w.sent.length ≤ min rules.config.heartbeatBatch s.world.entities.size ∧
      (∀ n t, rules.heartbeat fuel s = .ok n t → n = w.sent.length) ∧
      (w.sent.Nodup ↔ ∀ v v', Leads (rules.Beats fuel) ⟨s, []⟩ v → rules.Beats fuel v v' →
        Leads (rules.Beats fuel) v' w → ∃ id, v.session.world.entities.contains id = true ∧
          id ∉ v.sent) ∧
      ((∀ v v', Leads (rules.Beats fuel) ⟨s, []⟩ v → rules.Beats fuel v v' →
        Leads (rules.Beats fuel) v' w → ∀ id, s.world.entities.contains id = true →
          v.session.world.entities.contains id = true ∨ id ∈ v.sent) → w.sent.Nodup) := by
  have hOrdered := hStart.ordered
  obtain ⟨w, hw, hState, hMost, hCount⟩ := rules.beats_leads fuel
    (min rules.config.heartbeatBatch s.world.entities.size) ⟨s, []⟩
  rw [List.length_nil, Nat.zero_add] at hMost
  have hIff := nodup_sent_iff hRegistry hOrdered hw
  refine ⟨w, hw, hState, hMost, fun n t hRun => ?_, hIff, fun hStays => hIff.mpr ?_⟩
  · have := hCount n t hRun
    rw [List.length_nil, Nat.zero_add] at this
    exact this.symm
  · intro v v' hv hBeat hRest
    have hFewer : v.sent.length < s.world.entities.ids.length := by
      obtain ⟨_, _, hSent⟩ := hBeat.sent
      have hLength := (sent_goes_on hRest).length_le
      rw [hSent, List.length_append, List.length_singleton] at hLength
      have hIds : s.world.entities.ids.length = s.world.entities.size := List.length_map _
      omega
    obtain ⟨id, hIn, hWaits⟩ : ∃ id ∈ s.world.entities.ids, id ∉ v.sent := by
      apply Decidable.by_contra
      intro hNone
      have hAll : s.world.entities.ids ⊆ v.sent := fun id hId =>
        Decidable.by_contra fun hWaits => hNone ⟨id, hId, hWaits⟩
      exact Nat.not_le.mpr hFewer (hOrdered.nodup.length_le_of_subset hAll)
    exact ⟨id, (hStays v v' hv hBeat hRest id (EntityTable.contains_iff.mpr hIn)).resolve_right hWaits,
      hWaits⟩

theorem Beats.unique (rules : Rules) (fuel : Nat) :
    ∀ w v v', rules.Beats fuel w v → rules.Beats fuel w v' → v = v' := by
  rintro w ⟨t, sent⟩ ⟨t', sent'⟩ ⟨⟨id, hNext, rfl⟩, rfl⟩ ⟨⟨id', hNext', rfl⟩, rfl⟩
  cases hNext.symm.trans hNext'
  rfl

/-- Two entities, the first of which destroys the second at its heartbeat. -/
def rivalRequests : List Request :=
  [.spawn { className := "npc"
            script := some (.ofNormal "npc" "on main \x7b\n destroy npc_0002\n accept\n\x7d\n") },
    .spawn { className := "npc" }]

def rivalSession : Session :=
  (plain.serve 0 rivalRequests).state ⟨.ofConfig plain.config, .silent, #[]⟩

/-- Behind the first beat only the first entity is left. -/
def rivalAfter : Session := (plain.beat 9).state rivalSession

set_option maxRecDepth 100000 in
/-- Their heartbeat sends the event to the first entity twice: after the first time none is left. -/
theorem heartbeat_once_iff_rivalSession :
    plain.Attains rivalSession ∧
    ∃ w, Leads (plain.Beats 9) ⟨rivalSession, []⟩ w ∧
      w.session = (plain.heartbeat 9).state rivalSession ∧ w.sent = [⟨0⟩, ⟨0⟩] ∧
      ∃ v v', Leads (plain.Beats 9) ⟨rivalSession, []⟩ v ∧ plain.Beats 9 v v' ∧
        Leads (plain.Beats 9) v' w ∧
        ∀ id, v.session.world.entities.contains id = true → id ∈ v.sent := by
  have hStart : plain.Attains rivalSession :=
    serve_attains Registry.builtins_ofBuiltins .silent #[] 0 rivalRequests
  have hRun : Result.passes (fun n _ => n = 2) (plain.heartbeat 9 rivalSession) = true := by
    decide +kernel
  obtain ⟨n, t, hBeats, hTwo⟩ := Result.exists_of_passes hRun
  obtain rfl : n = 2 := of_decide_eq_true hTwo
  have hFirst : plain.Beats 9 ⟨rivalSession, []⟩ ⟨rivalAfter, [⟨0⟩]⟩ :=
    ⟨⟨⟨0⟩, by decide +kernel, rfl⟩, by dsimp only [rivalAfter]⟩
  have hSecond : plain.Beats 9 ⟨rivalAfter, [⟨0⟩]⟩
      ⟨(plain.beat 9).state rivalAfter, [⟨0⟩, ⟨0⟩]⟩ :=
    ⟨⟨⟨0⟩, by decide +kernel, rfl⟩, by dsimp only⟩
  obtain ⟨w, hw, hState, _, hCount, hIff, _⟩ :=
    heartbeat_once_iff Registry.builtins_ofBuiltins hStart 9
  have hLength : w.sent.length = [(⟨0⟩ : EntityId), ⟨0⟩].length := (hCount 2 t hBeats).symm
  have hSent : w.sent = [⟨0⟩, ⟨0⟩] := by
    rcases hw.comparable (Beats.unique plain 9) (.tail (.tail .refl hFirst) hSecond) with hOn | hBack
    · exact (sent_goes_on hOn).eq_of_length hLength
    · exact ((sent_goes_on hBack).eq_of_length hLength.symm).symm
  have hTwice : ¬ w.sent.Nodup := by
    rw [hSent]
    decide
  refine ⟨hStart, w, hw, hState, hSent, ?_⟩
  apply Classical.byContradiction
  intro hLeft
  refine hTwice (hIff.mpr fun v v' hv hBeat hRest => Classical.byContradiction fun hNone => ?_)
  exact hLeft ⟨v, v', hv, hBeat, hRest, fun id hLive =>
    Decidable.byContradiction fun hWaits => hNone ⟨id, hLive, hWaits⟩⟩

end Rules

end EntityScript
