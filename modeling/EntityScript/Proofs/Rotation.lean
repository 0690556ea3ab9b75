import EntityScript.Proofs.Heartbeat
import Mathlib.Data.Int.CardIntervalMod
import Mathlib.Data.List.Rotate

/-! Heartbeats are fair. While no entity comes or goes, they visit the live entities in the order of their
handles, round and round, each from where the one before it stopped. So no entity is ever more than one
visit ahead of another. -/
namespace EntityScript

/-- The first entries on the way round a list, again and again from its front. -/
def goRound {α : Type} (l : List α) : Nat → List α
  | 0 => []
  | m + 1 => goRound l m ++ l[m % l.length]?.toList

section goRound

variable {α : Type} {l : List α}

theorem goRound_nil (m : Nat) : goRound ([] : List α) m = [] := by
  induction m with
  | zero => rfl
  | succ m ih => simp [goRound, ih]

/-- One goes on from the entry that one has come to. -/
theorem goRound_add (l : List α) (m n : Nat) :
    goRound l (m + n) = goRound l m ++ goRound (l.rotate m) n := by
  rcases eq_or_ne l [] with rfl | hl
  · simp [goRound_nil]
  · induction n with
    | zero => exact (List.append_nil _).symm
    | succ n ih =>
        have hEntry : l[(m + n) % l.length]? = (l.rotate m)[n % (l.rotate m).length]? := by
          rw [List.length_rotate,
            List.getElem?_rotate (Nat.mod_lt n (List.length_pos_iff.mpr hl)), Nat.add_comm m n,
            Nat.mod_add_mod]
        rw [← Nat.add_assoc, goRound, ih, hEntry, List.append_assoc, goRound]

theorem goRound_one (l : List α) : goRound l 1 = l.head?.toList := by
  rw [goRound, goRound, List.nil_append, Nat.zero_mod, List.head?_eq_getElem?]

variable [DecidableEq α] {a : α}

/-- An entry comes whenever one is at its place. -/
theorem count_goRound (hl : l.Nodup) (ha : a ∈ l) (m : Nat) :
    (goRound l m).count a = m.count (· ≡ l.idxOf a [MOD l.length]) := by
  have hPlace : l.idxOf a < l.length := List.idxOf_lt_length_of_mem ha
  induction m with
  | zero => rfl
  | succ m ih =>
      have hIn := Nat.mod_lt m (Nat.zero_lt_of_lt hPlace)
      have hHere : l[m % l.length] = a ↔ m ≡ l.idxOf a [MOD l.length] := by
        rw [Nat.ModEq, Nat.mod_eq_of_lt hPlace, ← List.getElem_idxOf hPlace]
        exact hl.getElem_inj_iff.trans (by rw [List.getElem_idxOf hPlace])
      rw [goRound, List.count_append, ih, List.getElem?_eq_getElem hIn, Nat.count_succ]
      simp only [Option.toList_some, List.count_singleton, beq_iff_eq, hHere]

/-- On the way round, every entry comes as often as the others, up to one time. -/
theorem count_goRound_fair (hl : l.Nodup) (ha : a ∈ l) (m : Nat) :
    (goRound l m).count a = m / l.length ∨
      (goRound l m).count a = (m + l.length - 1) / l.length := by
  have hPlace : l.idxOf a < l.length := List.idxOf_lt_length_of_mem ha
  have hPos := Nat.zero_lt_of_lt hPlace
  rw [count_goRound hl ha, Nat.count_modEq_card m hPos, Nat.mod_eq_of_lt hPlace]
  split
  · refine .inr (Eq.symm ?_)
    rename_i hLess
    have hSplit : m + l.length - 1 = (m % l.length - 1) + l.length * (m / l.length + 1) := by
      rw [Nat.mul_succ]
      have := Nat.mod_add_div m l.length
      omega
    rw [hSplit, Nat.add_mul_div_left _ _ hPos,
      Nat.div_eq_of_lt (Nat.lt_of_le_of_lt (Nat.sub_le _ _) (Nat.mod_lt m hPos)), Nat.zero_add]
  · exact .inl rfl

end goRound

namespace EntityTable

variable {t u : EntityTable} {id : EntityId} {index : Nat}

/-- The live handles in the order of their turns, where the next turn is looked for from an index. -/
def turns (t : EntityTable) (index : Nat) : List EntityId :=
  t.ids.filter (index ≤ ·.index) ++ t.ids.filter (·.index < index)

theorem turns_congr (h : u.ids = t.ids) (index : Nat) : u.turns index = t.turns index := by
  rw [turns, turns, h]

theorem size_congr (h : u.ids = t.ids) : u.size = t.size := by
  have hLength := congrArg List.length h
  rwa [ids, ids, List.length_map, List.length_map] at hLength

theorem turns_perm (t : EntityTable) (index : Nat) : (t.turns index).Perm t.ids := by
  have hOther : (fun x : EntityId => decide (x.index < index)) =
      fun x => !decide (index ≤ x.index) :=
    funext fun x => Bool.eq_iff_iff.mpr (by simp)
  rw [turns, hOther]
  exact List.filter_append_perm _ _

theorem length_turns (t : EntityTable) (index : Nat) : (t.turns index).length = t.size :=
  (t.turns_perm index).length_eq.trans (List.length_map _)

/-- The next turn is the first one. -/
theorem nextLive?_eq_head? (t : EntityTable) (index : Nat) :
    t.nextLive? index = (t.turns index).head? := by
  rw [nextLive?, turns, List.head?_append, List.head?_filter]
  cases hFind : t.ids.find? (index ≤ ·.index) with
  | some first => rfl
  | none =>
      have hAll : t.ids.filter (·.index < index) = t.ids :=
        List.filter_eq_self.mpr fun x hx => by simpa using List.find?_eq_none.mp hFind x hx
      rw [hAll]
      rfl

/-- Those from the index on come first. -/
theorem turns_of_split {before after : List EntityId} (h : t.ids = before ++ after)
    (hBefore : ∀ x ∈ before, x.index < index) (hAfter : ∀ x ∈ after, index ≤ x.index) :
    t.turns index = after ++ before := by
  rw [turns, h, List.filter_append, List.filter_append,
    List.filter_eq_nil_iff.mpr fun x hx => by simpa using hBefore x hx,
    List.filter_eq_self.mpr fun x hx => decide_eq_true (hAfter x hx),
    List.filter_eq_self.mpr fun x hx => decide_eq_true (hBefore x hx),
    List.filter_eq_nil_iff.mpr fun x hx => by simpa using hAfter x hx, List.nil_append,
    List.append_nil]

/-- An entity that has had its turn is the last of all. -/
theorem Ordered.turns_next (h : t.Ordered) (hNext : t.nextLive? index = some id) :
    t.turns (id.index + 1) = (t.turns index).rotate 1 := by
  obtain ⟨hMem, hPlace⟩ := h.nextLive? hNext
  obtain ⟨before, after, hSplit⟩ := List.append_of_mem hMem
  have hSorted := h.sorted
  rw [hSplit, List.pairwise_append] at hSorted
  have hBefore : ∀ x ∈ before, x.index < id.index := fun x hx =>
    hSorted.2.2 x hx id List.mem_cons_self
  have hAfter : ∀ x ∈ after, id.index < x.index := fun x hx =>
    List.rel_of_pairwise_cons hSorted.2.1 hx
  have hThen : t.turns (id.index + 1) = after ++ (before ++ [id]) := by
    refine turns_of_split (hSplit.trans (by simp)) (fun x hx => ?_) hAfter
    rcases List.mem_append.mp hx with hEarly | hSelf
    · exact Nat.lt_succ_of_lt (hBefore x hEarly)
    · rw [List.mem_singleton.mp hSelf]
      exact Nat.lt_succ_self _
  have hNow : t.turns index = id :: after ++ before := by
    rcases hPlace with ⟨hFrom, hLeast⟩ | ⟨hBelow, hLeast⟩
    · refine turns_of_split hSplit (fun x hx => Nat.not_le.mp fun hLate => ?_) ?_
      · exact Nat.not_le.mpr (hBefore x hx)
          (hLeast x (hSplit ▸ List.mem_append_left _ hx) hLate)
      · exact List.forall_mem_cons.mpr
          ⟨hFrom, fun x hx => Nat.le_trans hFrom (Nat.le_of_lt (hAfter x hx))⟩
    · -- The search has begun again with the first entity, so this is it.
      obtain rfl : before = [] := List.eq_nil_iff_forall_not_mem.mpr fun x hx =>
        Nat.not_le.mpr (hBefore x hx) (hLeast x (hSplit ▸ List.mem_append_left _ hx))
      rw [List.nil_append] at hSplit
      rw [List.append_nil, ← hSplit]
      exact turns_of_split (List.append_nil _).symm hBelow nofun
  rw [hThen, hNow, List.cons_append, List.rotate_cons_succ, List.rotate_zero, List.append_assoc]

end EntityTable

namespace Pulse

variable {w v : Pulse} {id : EntityId}

/-- The live handles in the order of their turns. -/
def turns (w : Pulse) : List EntityId := w.session.world.entities.turns w.session.world.heartbeat

theorem next?_eq_head? (w : Pulse) : w.next? = w.turns.head? :=
  EntityTable.nextLive?_eq_head? _ _

/-- Behind a beat that takes no entity away the turns have gone on by one. -/
theorem Goes.turns (h : w.Goes id v) (hOrdered : w.session.world.entities.Ordered)
    (hIds : v.session.world.entities.ids = w.session.world.entities.ids) :
    v.turns = w.turns.rotate 1 := by
  unfold Pulse.turns
  rw [h.heartbeat, EntityTable.turns_congr hIds, hOrdered.turns_next h.next]

end Pulse

namespace Rules

variable {rules : Rules} {fuel n k : Nat} {s t : Session} {w v : Pulse}

section OfBuiltins

variable (hRegistry : rules.registry.OfBuiltins)

include hRegistry

/-- What is live behind some beats was live before. -/
theorem beats_ids (h : Leads (rules.Beats fuel) v w) :
    w.session.world.entities.ids.Sublist v.session.world.entities.ids := by
  refine h.keeps (P := fun x => x.session.world.entities.ids.Sublist v.session.world.entities.ids)
    (fun hBefore hBeat => ?_) (.refl _)
  obtain ⟨_, hGoes⟩ := hBeat.goes hRegistry
  exact hGoes.ids.trans hBefore

/-- Beats that take no entity away visit the entities in the order of their turns. -/
theorem beats_goRound (hOrdered : s.world.entities.Ordered)
    (h : Leads (rules.Beats fuel) ⟨s, []⟩ w)
    (hIds : w.session.world.entities.ids = s.world.entities.ids) :
    w.sent = goRound (Pulse.turns ⟨s, []⟩) w.sent.length ∧
      w.turns = (Pulse.turns ⟨s, []⟩).rotate w.sent.length := by
  induction h with
  | refl => exact ⟨rfl, (List.rotate_zero _).symm⟩
  | @tail v w hv hBeat ih =>
      obtain ⟨id, hGoes⟩ := hBeat.goes hRegistry
      have hBefore : v.session.world.entities.ids = s.world.entities.ids :=
        (beats_ids hRegistry hv).antisymm (hIds ▸ hGoes.ids)
      obtain ⟨hSent, hTurns⟩ := ih hBefore
      have hHead : ((Pulse.turns ⟨s, []⟩).rotate v.sent.length).head? = some id := by
        rw [← hTurns, ← Pulse.next?_eq_head?, hGoes.next]
      rw [hGoes.sent, List.length_append, List.length_singleton, goRound_add, ← hSent,
        hGoes.turns (round_of_beats hRegistry hOrdered hv).1 (hIds.trans hBefore.symm), hTurns,
        List.rotate_rotate]
      exact ⟨by rw [goRound_one, hHead]; rfl, rfl⟩

end OfBuiltins

/-- As long as there are live entities a heartbeat goes on beating. -/
theorem beats_all (h : rules.beats fuel n s = .ok k t) (hLive : n ≤ t.world.entities.size) :
    k = n := by
  induction n generalizing s k with
  | zero =>
      cases h
      rfl
  | succ n ih =>
      rw [beats_succ] at h
      cases hNext : Pulse.next? ⟨s, []⟩ with
      | none =>
          rw [beat_none rules fuel hNext] at h
          cases h
          rw [Pulse.next?_eq_head?, List.head?_eq_none_iff] at hNext
          have hSize := EntityTable.length_turns s.world.entities s.world.heartbeat
          rw [show s.world.entities.turns s.world.heartbeat = [] from hNext] at hSize
          rw [← hSize] at hLive
          exact absurd hLive (Nat.not_succ_le_zero n)
      | some id =>
          obtain ⟨u, hBeat | ⟨_, hBeat⟩⟩ := beat_some rules fuel hNext
          · rw [hBeat] at h
            dsimp only at h
            split at h
            · rename_i hRest
              cases h
              rw [ih hRest (Nat.le_of_succ_le hLive)]
            · cases h
          · rw [hBeat] at h
            cases h

/-- A heartbeat halts only where one of its dispatches does. -/
theorem beats_halts {x : Halt} {t : Session} {n : Nat} {w : Pulse}
    (h : rules.beats fuel n w.session = .error x t) :
    ∃ v, Leads (rules.Beats fuel) w v ∧ ∃ x u, rules.beat fuel v.session = .error x u := by
  induction n generalizing w with
  | zero => cases h
  | succ n ih =>
      rw [beats_succ] at h
      cases hBeat : rules.beat fuel w.session with
      | error x u => exact ⟨w, .refl, x, u, hBeat⟩
      | ok more u =>
          rw [hBeat] at h
          cases hNext : w.next? with
          | none =>
              rw [beat_none rules fuel hNext] at hBeat
              cases hBeat
              cases h
          | some id =>
              obtain ⟨u', hBeat' | ⟨_, hBeat'⟩⟩ := beat_some rules fuel hNext
              · rw [hBeat] at hBeat'
                cases hBeat'
                have hStep : rules.Beats fuel w ⟨u, w.sent ++ [id]⟩ :=
                  ⟨⟨id, hNext, rfl⟩, by rw [Action.state, hBeat]⟩
                dsimp only at h
                split at h
                · cases h
                · rename_i hRest
                  cases h
                  obtain ⟨v, hLeads, hHalt⟩ := ih (w := ⟨u, w.sent ++ [id]⟩) hRest
                  exact ⟨v, hLeads.head hStep, hHalt⟩
              · rw [hBeat] at hBeat'
                cases hBeat'

/-- A heartbeat comes to its end. It reaches these entities, and gives how many they are. -/
structure Reaches (rules : Rules) (fuel : Nat) (s : Session) (ids : List EntityId) (t : Session) :
    Prop where
  beats : Leads (rules.Beats fuel) ⟨s, []⟩ ⟨t, ids⟩
  returns : rules.heartbeat fuel s = .ok ids.length t

theorem reaches_of_ok (h : rules.heartbeat fuel s = .ok k t) : ∃ ids, rules.Reaches fuel s ids t := by
  obtain ⟨⟨t', ids⟩, hLeads, hState, _, hCount⟩ :=
    rules.beats_leads fuel (min rules.config.heartbeatBatch s.world.entities.size) ⟨s, []⟩
  have hLength := hCount k t h
  rw [List.length_nil, Nat.zero_add] at hLength
  have hEnd : (rules.heartbeat fuel).state s = t := by rw [Action.state, h]
  cases hState.trans hEnd
  exact ⟨ids, hLeads, by rw [h, ← hLength]⟩

/-- A heartbeat comes to its end unless one of its dispatches halts. -/
theorem heartbeat_reaches (rules : Rules) (fuel : Nat) (s : Session) :
    (∃ ids t, rules.Reaches fuel s ids t) ∨
      ∃ w, Leads (rules.Beats fuel) ⟨s, []⟩ w ∧ ∃ x t, rules.beat fuel w.session = .error x t := by
  cases hRun : rules.heartbeat fuel s with
  | ok k t =>
      obtain ⟨ids, hReaches⟩ := reaches_of_ok hRun
      exact .inl ⟨ids, t, hReaches⟩
  | error x t => exact .inr (beats_halts (w := ⟨s, []⟩) hRun)

/-- Heartbeats one after the other while no entity comes or goes, with the entities that each of them
reaches. Between them anything may happen that leaves the entities live and the heartbeat where it is. -/
inductive Series (rules : Rules) (s : Session) : List (List EntityId) → Session → Prop where
  | start : Series rules s [] s
  | pause {reached : List (List EntityId)} {t u : Session} (prior : Series rules s reached t)
      (hIds : u.world.entities.ids = t.world.entities.ids)
      (hNext : u.world.entities.next = t.world.entities.next)
      (hHeartbeat : u.world.heartbeat = t.world.heartbeat) : Series rules s reached u
  | heartbeat {reached : List (List EntityId)} {t u : Session} {fuel : Nat} {ids : List EntityId}
      (prior : Series rules s reached t) (last : rules.Reaches fuel t ids u)
      (hIds : u.world.entities.ids = t.world.entities.ids) : Series rules s (reached ++ [ids]) u

/-- How many entities a heartbeat reaches while all stay. -/
def batch (rules : Rules) (s : Session) : Nat :=
  min rules.config.heartbeatBatch s.world.entities.size

section OfBuiltins

variable (hRegistry : rules.registry.OfBuiltins)

include hRegistry

/-- A heartbeat that all entities outlive goes on by a batch. -/
theorem Reaches.goes {ids : List EntityId} (h : rules.Reaches fuel s ids t)
    (hOrdered : s.world.entities.Ordered) (hIds : t.world.entities.ids = s.world.entities.ids) :
    ids.length = rules.batch s ∧ ids = goRound (Pulse.turns ⟨s, []⟩) (rules.batch s) ∧
      Pulse.turns ⟨t, []⟩ = (Pulse.turns ⟨s, []⟩).rotate (rules.batch s) := by
  have hSize : t.world.entities.size = s.world.entities.size := EntityTable.size_congr hIds
  have hLength : ids.length = rules.batch s :=
    beats_all h.returns (hSize ▸ Nat.min_le_right _ _)
  obtain ⟨hSent, hTurns⟩ := beats_goRound hRegistry hOrdered h.beats hIds
  dsimp only at hSent hTurns
  rw [hLength] at hSent hTurns
  exact ⟨hLength, hSent, hTurns⟩

/-- Along a series the turns go round, and every heartbeat reaches a batch. -/
structure Rolls (rules : Rules) (s : Session) (reached : List (List EntityId)) (t : Session) :
    Prop where
  ordered : t.world.entities.Ordered
  ids : t.world.entities.ids = s.world.entities.ids
  each : ∀ ids ∈ reached, ids.length = rules.batch s
  sent : reached.flatten = goRound (Pulse.turns ⟨s, []⟩) (reached.length * rules.batch s)
  turns : Pulse.turns ⟨t, []⟩ = (Pulse.turns ⟨s, []⟩).rotate (reached.length * rules.batch s)

theorem Series.rolls {reached : List (List EntityId)} (h : rules.Series s reached t)
    (hOrdered : s.world.entities.Ordered) : rules.Rolls s reached t := by
  induction h with
  | start => exact ⟨hOrdered, rfl, nofun, by simp [goRound], by simp⟩
  | pause _ hIds hNext hHeartbeat ih =>
      refine ⟨ih.ordered.sublist (hIds ▸ .refl _) hNext, hIds.trans ih.ids, ih.each, ih.sent, ?_⟩
      rw [← ih.turns, Pulse.turns, Pulse.turns, hHeartbeat, EntityTable.turns_congr hIds]
  | @heartbeat reached t u fuel ids _ last hIds ih =>
      have hBatch : rules.batch t = rules.batch s := by
        rw [batch, batch, EntityTable.size_congr ih.ids]
      obtain ⟨hLength, hSent, hTurns⟩ := last.goes hRegistry ih.ordered hIds
      rw [hBatch] at hLength hSent hTurns
      have hLonger (last : List EntityId) : (reached ++ [last]).length * rules.batch s =
          reached.length * rules.batch s + rules.batch s := by
        rw [List.length_append, List.length_singleton, Nat.succ_mul]
      refine ⟨(round_of_beats hRegistry ih.ordered last.beats).1, hIds.trans ih.ids, ?_, ?_, ?_⟩
      · exact List.forall_mem_append.mpr ⟨ih.each, List.forall_mem_singleton.mpr hLength⟩
      · rw [List.flatten_concat, ih.sent, hSent, ih.turns, hLonger, goRound_add]
      · rw [hTurns, ih.turns, List.rotate_rotate, hLonger]

end OfBuiltins

/-- While no entity comes or goes, heartbeats are fair, whatever handles are live and wherever the first
one starts. Each reaches as many entities as a batch has, or all if they are fewer, and together they go
round the handles in their order, so of two entities none is reached more than once more often than the
other. A heartbeat comes to its end unless one of its dispatches halts. -/
theorem heartbeats_fair (hRegistry : rules.registry.OfBuiltins)
    (hOrdered : s.world.entities.Ordered) {reached : List (List EntityId)}
    (h : rules.Series s reached t) :
    (∀ ids ∈ reached, ids.length = min rules.config.heartbeatBatch s.world.entities.size) ∧
    reached.flatten = goRound (s.world.entities.turns s.world.heartbeat)
      (reached.length * min rules.config.heartbeatBatch s.world.entities.size) ∧
    (∀ id ∈ s.world.entities.ids,
      reached.flatten.count id =
          reached.length * min rules.config.heartbeatBatch s.world.entities.size /
            s.world.entities.size ∨
        reached.flatten.count id =
          (reached.length * min rules.config.heartbeatBatch s.world.entities.size +
            s.world.entities.size - 1) / s.world.entities.size) ∧
    ∀ fuel, (∃ ids u, rules.Reaches fuel t ids u) ∨
      ∃ w, Leads (rules.Beats fuel) ⟨t, []⟩ w ∧ ∃ x u, rules.beat fuel w.session = .error x u := by
  have hRolls := h.rolls hRegistry hOrdered
  refine ⟨hRolls.each, hRolls.sent, fun id hId => ?_, fun fuel => rules.heartbeat_reaches fuel t⟩
  have hPerm := s.world.entities.turns_perm s.world.heartbeat
  have hFair := count_goRound_fair (hPerm.nodup_iff.mpr hOrdered.nodup) (hPerm.mem_iff.mpr hId)
    (reached.length * rules.batch s)
  rw [EntityTable.length_turns] at hFair
  rw [hRolls.sent]
  exact hFair

/-- A heartbeat reaches two entities. -/
def paired : Rules := { plain with config := { plain.config with heartbeatBatch := 2 } }

/-- Five entities, of which the first two have had a heartbeat when two go. -/
def gappedRequests : List Request :=
  let npc : Blueprint :=
    { className := "npc"
      script := some (.ofNormal "npc" "on main \x7b\n inc #beats 1\n accept\n\x7d\n") }
  [.spawn npc, .spawn npc, .spawn npc, .spawn npc, .spawn npc, .heartbeat, .dismiss ⟨1⟩, .dismiss ⟨2⟩]

def gappedSession : Session :=
  (paired.serve 9 gappedRequests).state ⟨.ofConfig paired.config, .silent, #[]⟩

/-- Behind the next heartbeat. -/
def gappedAfter : Session := (paired.heartbeat 9).state gappedSession

set_option maxRecDepth 100000 in
/-- The next two heartbeats begin where an entity is gone, and go round the three that are left. -/
theorem heartbeats_fair_gappedSession :
    ∃ first second t, paired.Series gappedSession [first, second] t ∧
      first ++ second = [⟨3⟩, ⟨4⟩, ⟨0⟩, ⟨3⟩] := by
  have hStart : paired.Attains gappedSession :=
    serve_attains Registry.builtins_ofBuiltins .silent #[] 9 gappedRequests
  have hGapped : gappedSession.world.entities.ids = [⟨0⟩, ⟨3⟩, ⟨4⟩] ∧
      goRound (gappedSession.world.entities.turns gappedSession.world.heartbeat)
        (2 * min paired.config.heartbeatBatch gappedSession.world.entities.size) =
          [⟨3⟩, ⟨4⟩, ⟨0⟩, ⟨3⟩] := by
    decide +kernel
  obtain ⟨hIds, hTurns⟩ := hGapped
  have hFirst : Result.passes (fun _ t => t.world.entities.ids = [⟨0⟩, ⟨3⟩, ⟨4⟩])
      (paired.heartbeat 9 gappedSession) = true := by
    decide +kernel
  have hSecond : Result.passes (fun _ t => t.world.entities.ids = [⟨0⟩, ⟨3⟩, ⟨4⟩])
      (paired.heartbeat 9 gappedAfter) = true := by
    decide +kernel
  obtain ⟨_, t, hRun, hMiddle⟩ := Result.exists_of_passes hFirst
  obtain ⟨_, u, hRun', hLast⟩ := Result.exists_of_passes hSecond
  have hAfter : gappedAfter = t := by rw [gappedAfter, Action.state, hRun]
  rw [hAfter] at hRun'
  have hIds' := of_decide_eq_true hMiddle
  obtain ⟨first, hReaches⟩ := reaches_of_ok hRun
  obtain ⟨second, hReaches'⟩ := reaches_of_ok hRun'
  have hSeries : paired.Series gappedSession [first, second] u :=
    .heartbeat (.heartbeat .start hReaches (hIds'.trans hIds.symm)) hReaches'
      ((of_decide_eq_true hLast).trans hIds'.symm)
  obtain ⟨_, hSent, _⟩ := heartbeats_fair Registry.builtins_ofBuiltins hStart.ordered hSeries
  refine ⟨first, second, u, hSeries, ?_⟩
  rw [← hTurns]
  simpa using hSent

end Rules

end EntityScript
