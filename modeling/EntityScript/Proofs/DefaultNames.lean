import EntityScript.Proofs.ConditionStop
import EntityScript.Proofs.DryRun
import Mathlib.Data.List.Nodup
import Mathlib.Data.List.Perm.Subperm

/-! Timers without a name. They get the first default name that no timer of the entity has. The entity has
fewer timers than there are names to try, so one is found, and the timer that is started under it displaces
no other, whatever names the scripts use. -/
namespace EntityScript

namespace TimerSet

variable {s s' : TimerSet} {t : Timer} {owner : EntityId} {fuel n : Nat}

theorem defaultNameAt_injective : Function.Injective defaultNameAt := by
  intro n m h
  have hDigits : Nat.toDigits 10 n = Nat.toDigits 10 m := by
    simpa [defaultNameAt, Nat.toString_eq_ofList_toDigits] using congrArg String.toList h
  rw [← Nat.ofDigitChars_ten_toDigits (n := n), hDigits, Nat.ofDigitChars_ten_toDigits]

/-- Among more names than the owner has timers, one is free. -/
theorem exists_free (s : TimerSet) (owner : EntityId) :
    ∃ k, 1 ≤ k ∧ k < 1 + (s.countFor owner + 1) ∧ s.contains owner (defaultNameAt k) = false := by
  by_contra hNone
  have hTaken : (List.range' 1 (s.countFor owner + 1)).map defaultNameAt ⊆ s.names owner := by
    intro name hName
    obtain ⟨k, hk, rfl⟩ := List.mem_map.mp hName
    obtain ⟨hFirst, hLast⟩ := List.mem_range'_1.mp hk
    rw [mem_names_iff]
    by_contra hFree
    exact hNone ⟨k, hFirst, hLast, Bool.not_eq_true _ ▸ hFree⟩
  have hNames : ((List.range' 1 (s.countFor owner + 1)).map defaultNameAt).Nodup :=
    List.Nodup.map defaultNameAt_injective (List.nodup_range' 1)
  have hFew := (hNames.subperm hTaken).length_le
  rw [List.length_map, List.length_range', length_names] at hFew
  omega

/-- The search ends at the first free name, if it goes on far enough. -/
theorem defaultNameFrom_first
    (h : ∃ k, n ≤ k ∧ k < n + fuel ∧ s.contains owner (defaultNameAt k) = false) :
    ∃ k, n ≤ k ∧ k < n + fuel ∧ s.defaultNameFrom owner fuel n = defaultNameAt k ∧
      s.contains owner (defaultNameAt k) = false ∧
      ∀ j, n ≤ j → j < k → s.contains owner (defaultNameAt j) = true := by
  induction fuel generalizing n with
  | zero =>
      obtain ⟨k, hFirst, hLast, -⟩ := h
      omega
  | succ fuel ih =>
      cases hHere : s.contains owner (defaultNameAt n) with
      | false =>
          refine ⟨n, Nat.le_refl n, by omega, ?_, hHere, fun j hFirst hBefore => by omega⟩
          rw [defaultNameFrom, if_neg (by simp [hHere])]
      | true =>
          obtain ⟨k, hFirst, hLast, hFree⟩ := h
          have hBehind : n + 1 ≤ k := by
            by_contra hNot
            obtain rfl : k = n := by omega
            exact Bool.false_ne_true (hFree.symm.trans hHere)
          obtain ⟨k, hFirst, hLast, hName, hFree, hTaken⟩ := ih ⟨k, hBehind, by omega, hFree⟩
          refine ⟨k, by omega, by omega, ?_, hFree, fun j hj hBefore => ?_⟩
          · rw [defaultNameFrom, if_pos hHere, hName]
          · rcases Nat.eq_or_lt_of_le hj with rfl | hLater
            · exact hHere
            · exact hTaken j hLater hBefore

/-- The `k`-th default name is the first that no timer of the owner has. -/
structure FirstFree (s : TimerSet) (owner : EntityId) (k : Nat) : Prop where
  pos : 1 ≤ k
  le : k ≤ s.countFor owner + 1
  free : s.contains owner (defaultNameAt k) = false
  taken : ∀ j, 1 ≤ j → j < k → s.contains owner (defaultNameAt j) = true

theorem exists_firstFree (s : TimerSet) (owner : EntityId) :
    ∃ k, s.FirstFree owner k ∧ s.defaultName owner = defaultNameAt k := by
  obtain ⟨k, hFirst, hLast, hName, hFree, hTaken⟩ := defaultNameFrom_first (exists_free s owner)
  exact ⟨k, ⟨hFirst, by omega, hFree, hTaken⟩, hName⟩

/-- There is one timer more. It stands in a slot that was free, and every other slot is as it was. -/
structure Gains (s : TimerSet) (t : Timer) (s' : TimerSet) : Prop where
  size : s'.size = s.size + 1
  slots : ∃ i, s.slot? i = none ∧ ∀ j, s'.slot? j = if j = i then some t else s.slot? j

theorem put_gains (s : TimerSet) (t : Timer) : s.Gains t (s.put t) := by
  obtain ⟨i, hFree, -, -, hSlots⟩ := put_slots s t
  refine ⟨?_, i, hFree, hSlots⟩
  unfold put
  cases hFind : s.slots.findIdx? Option.isNone with
  | some i =>
      obtain ⟨hIn, hNone, -⟩ := Array.findIdx?_eq_some_iff_getElem.mp hFind
      rw [Option.isNone_iff_eq_none] at hNone
      simp [size, Array.setIfInBounds, hIn, Array.countP_set, hNone]
  | none => simp [size]

theorem stop_of_not_contains {name : String} (h : s.contains owner name = false) :
    s.stop owner name = s := by
  have hNone := Array.any_eq_false'.mp h
  have hSame : (s.slots.map fun slot => if holds owner name slot then none else slot) = s.slots := by
    refine (Array.map_congr_left fun slot hSlot => if_neg (hNone slot hSlot)).trans ?_
    exact Array.map_id' s.slots
  exact congrArg TimerSet.mk hSame

/-- A timer under the default name of its owner displaces no other. -/
theorem start_gains (h : t.name = s.defaultName t.owner) : s.Gains t (s.start t) := by
  obtain ⟨k, hk, hName⟩ := exists_firstFree s t.owner
  rw [start, stop_of_not_contains (by rw [h, hName, hk.free])]
  exact put_gains s t

end TimerSet

namespace Command

open Act

variable {S : Session → Session → Prop} {inv inv' : Invocation} {p q : Progress} {name : String}
  {arity pos : Nat} {delay : Duration}

/-- A timer of the entity that runs, for the line at a place, under its default name. -/
structure Unnamed (inv : Invocation) (pos : Nat) (s : TimerSet) (t : Timer) : Prop where
  owner : t.owner = inv.entity
  script : t.script = inv.script
  pos : t.pos = pos
  name : t.name = s.defaultName inv.entity

theorem Unnamed.gains {s : TimerSet} {t : Timer} (h : Unnamed inv pos s t) : s.Gains t (s.start t) :=
  TimerSet.start_gains (by rw [h.name, h.owner])

/-- Reads what stands behind a bare `timer`. Gives where the line of the timer begins, if the timer has no
name and is not to be stopped. -/
def unnamedLine : Act (Option Nat) := do
  let _ ← flags
  let first ← word
  if namesTimer first || first = "off" then return none
  else
    let _ ← readFloat first
    let _ ← float
    skipLine

theorem unnamedLine_twin (hS : Watches S inv inv') :
    Twin S inv inv' (fun _ => True) unnamedLine := by
  apply hS.flags.andThen
  intro _
  apply hS.word.bind
  intro first hFirst
  split
  · exact .pure True.intro
  · exact (hS.readFloat hFirst).andThen fun _ => hS.float.andThen fun _ => hS.skipLine

theorem runTimer_unnamed (h : unnamedLine inv p = .ok (some pos) q) :
    ∃ t q', runTimer "" inv p = .ok .success q' ∧ Unnamed inv pos q.session.world.timers t ∧
      q'.session.world.timers = q.session.world.timers.start t := by
  obtain ⟨options, p₁, hFlags, h⟩ := ok_of_bind h
  obtain ⟨first, p₂, hFirst, h⟩ := ok_of_bind h
  split at h
  · cases h
  rename_i hOther
  obtain ⟨hNoName, hStarts⟩ : namesTimer first = false ∧ first ≠ "off" := by simpa using hOther
  obtain ⟨count, p₃, hCount, h⟩ := ok_of_bind h
  obtain ⟨amount, p₄, hAmount, hLine⟩ := ok_of_bind h
  rw [runTimer, if_neg (by decide), bind_of_ok hFlags, bind_of_ok hFirst, if_neg (by simp [hNoName]),
    stopOrStart, if_neg hStarts, startTimer, bind_of_ok hCount, bind_of_ok hAmount, bind_of_ok hLine]
  exact ⟨_, _, rfl, ⟨rfl, rfl, rfl, rfl⟩, rfl⟩

/-- Reads what a gameplay command is given and gives where the rest of its line begins. -/
def resumedLine (arity : Nat) : Act (Option Nat) := do
  let _ ← flags
  let _ ← readWords arity
  skipLine

theorem resumedLine_twin (hS : Watches S inv inv') (arity : Nat) :
    Twin S inv inv' (fun _ => True) (resumedLine arity) :=
  hS.flags.andThen fun _ => (readWords_twin hS arity).andThen fun _ => hS.skipLine

/-- The session when the game has heard of a command. -/
def told (command : HostCommand) (s : Session) : Session :=
  { s.write .debug .host (command.ident ++ " " ++ command.name ++ " " ++ Text.quotedList command.args) with
    host := (s.host.give command).2 }

/-- That is the same to all that follows. -/
theorem told_alike (command : HostCommand) (s : Session) : s.Alike (told command s) := by
  let tell (r : HostRecord) : HostRecord := { r with commands := r.commands ++ [command] }
  exact ⟨rfl, Host.modify_answers (f := tell) (fun _ => rfl) _,
    Host.modify_responses (f := tell) (fun _ => rfl) _⟩

theorem forward_told {p₁ p₂ : Progress} {options : String} {args : List String}
    (hFlags : flags inv p = .ok options p₁) (hArgs : readWords arity inv p₁ = .ok args p₂)
    (hResponse : p₂.session.host.record.responses.lookup name = some (.resumeAfter delay)) :
    ∃ command, forward name arity inv p =
      (do putOff delay; return Reply.success : Act Reply) inv
        { p₂ with session := told command p₂.session } := by
  let ident := ((p₂.session.world.entities.get? inv.entity).map Entity.ident).getD "unknown"
  let command : HostCommand := { entity := inv.entity, ident, name, flags := options, args }
  have hGiven : (p₂.session.host.give command).1 = .resumeAfter delay := by
    rw [Host.give, hResponse]
    rfl
  have hIdent : Act.ident inv p₂ = .ok ident p₂ := rfl
  have hWrite : onSession (Session.write .debug .host (ident ++ " " ++ name ++ " " ++ Text.quotedList args))
      inv p₂ = .ok () { p₂ with session := { told command p₂.session with host := p₂.session.host } } := rfl
  refine ⟨command, ?_⟩
  rw [forward, bind_of_ok hFlags, bind_of_ok hArgs, invocation_bind, bind_of_ok hIdent,
    bind_of_ok hWrite, get_bind]
  dsimp only
  rw [hGiven]
  rfl

theorem forward_resumes (h : resumedLine arity inv p = .ok (some pos) q)
    (hResponse : p.session.host.record.responses.lookup name = some (.resumeAfter delay)) :
    ∃ t q', forward name arity inv p = .ok .success q' ∧ Unnamed inv pos q.session.world.timers t ∧
      t.interval = delay ∧ t.count = 1 ∧
      q'.session.world.timers = q.session.world.timers.start t := by
  obtain ⟨options, p₁, hFlags, h⟩ := ok_of_bind h
  obtain ⟨args, p₂, hArgs, hLine⟩ := ok_of_bind h
  have hRead : Session.Glanced inv.script.AsksFor p.session p₂.session :=
    (glances (fun hS => hS.flags) hFlags).trans (glances (fun hS => readWords_twin hS arity) hArgs)
  rw [← hRead.responses] at hResponse
  obtain ⟨command, hRun⟩ := forward_told hFlags hArgs hResponse
  have hTold : p₂.Beside Session.Alike { p₂ with session := told command p₂.session } :=
    ⟨told_alike command _, rfl, rfl⟩
  obtain ⟨q', hSkip, hSame⟩ := ok_alike (fun hS => hS.skipLine) hTold hLine
  have hPutOff : putOff delay inv { p₂ with session := told command p₂.session } = _ := bind_of_ok hSkip
  rw [← hSame.world, hRun, bind_of_ok hPutOff]
  exact ⟨_, _, rfl, ⟨rfl, rfl, rfl, rfl⟩, rfl, rfl, rfl⟩

/-- An unnamed timer displaces no other. The default name is the first that is free, and its number is at most
one more than the entity has timers. A timer that is started under it is one more, and every other one stays
in its slot. So it is when a script starts a timer without a name, and when the game puts off the rest of a
line. -/
theorem unnamed_timers_displace_none :
    (∀ (s : TimerSet) (owner : EntityId),
      (∃ k, s.FirstFree owner k ∧ s.defaultName owner = TimerSet.defaultNameAt k) ∧
      ∀ t : Timer, t.owner = owner → t.name = s.defaultName owner → s.Gains t (s.start t)) ∧
    (∀ inv p pos q, unnamedLine inv p = .ok (some pos) q → ∃ t q',
      runTimer "" inv p = .ok .success q' ∧ Unnamed inv pos p.session.world.timers t ∧
      p.session.world.timers.Gains t q'.session.world.timers) ∧
    ∀ name arity inv p pos q delay, resumedLine arity inv p = .ok (some pos) q →
      p.session.host.record.responses.lookup name = some (.resumeAfter delay) → ∃ t q',
        forward name arity inv p = .ok .success q' ∧ Unnamed inv pos p.session.world.timers t ∧
        t.interval = delay ∧ t.count = 1 ∧
        p.session.world.timers.Gains t q'.session.world.timers := by
  refine ⟨fun s owner => ⟨s.exists_firstFree owner, ?_⟩, ?_, ?_⟩
  · rintro t rfl hName
    exact TimerSet.start_gains hName
  · intro inv p pos q hLine
    have hSame := congrArg World.timers (glances (fun hS => unnamedLine_twin hS) hLine).world
    obtain ⟨t, q', hRun, hUnnamed, hStart⟩ := runTimer_unnamed hLine
    rw [show q.session.world.timers = p.session.world.timers from hSame] at hUnnamed hStart
    exact ⟨t, q', hRun, hUnnamed, hStart ▸ hUnnamed.gains⟩
  · intro name arity inv p pos q delay hLine hResponse
    have hSame := congrArg World.timers (glances (fun hS => resumedLine_twin hS arity) hLine).world
    obtain ⟨t, q', hRun, hUnnamed, hDelay, hOnce, hStart⟩ := forward_resumes hLine hResponse
    rw [show q.session.world.timers = p.session.world.timers from hSame] at hUnnamed hStart
    exact ⟨t, q', hRun, hUnnamed, hDelay, hOnce, hStart ▸ hUnnamed.gains⟩

/-- A line that starts a timer, or makes the game put off its rest. -/
def lateInvocation : Invocation :=
  { script := .ofNormal "npc" " 0 1 accept", entity := ⟨0⟩, event := .fixed .init }

/-- The start of the line. A script has used the first and the third default name. -/
def lateStart : Progress :=
  let timer (name : String) : Timer :=
    ⟨name, ⟨0⟩, lateInvocation.script, 0, ⟨Duration.second⟩, 0, .zero, false⟩
  let timers := (TimerSet.empty.start (timer "timer_3")).start (timer "timer_1")
  ⟨⟨{ World.ofConfig {} with timers },
    .recording { responses := [("speak", .resumeAfter ⟨Duration.second⟩)] }, #[]⟩, 0, []⟩

set_option maxRecDepth 100000 in
theorem unnamed_timers_displace_none_late :
    ∃ t q t' q', runTimer "" lateInvocation lateStart = .ok .success q ∧ t.name = "timer_2" ∧
      lateStart.session.world.timers.Gains t q.session.world.timers ∧
      forward "speak" 2 lateInvocation lateStart = .ok .success q' ∧ t'.name = "timer_2" ∧
      lateStart.session.world.timers.Gains t' q'.session.world.timers := by
  have hLine : returned? (unnamedLine lateInvocation lateStart) = some (some 5) := by decide +kernel
  have hRest : returned? (resumedLine 2 lateInvocation lateStart) = some (some 5) := by decide +kernel
  have hName : lateStart.session.world.timers.defaultName lateInvocation.entity = "timer_2" := by
    decide +kernel
  obtain ⟨_, hLine⟩ := exists_ok_of_returned? hLine
  obtain ⟨_, hRest⟩ := exists_ok_of_returned? hRest
  obtain ⟨-, hTimer, hResume⟩ := unnamed_timers_displace_none
  obtain ⟨t, q, hRun, hUnnamed, hGains⟩ := hTimer _ _ _ _ hLine
  obtain ⟨t', q', hRun', hUnnamed', -, -, hGains'⟩ :=
    hResume "speak" 2 _ _ _ _ ⟨Duration.second⟩ hRest (by decide)
  exact ⟨t, q, t', q', hRun, hUnnamed.name.trans hName, hGains, hRun', hUnnamed'.name.trans hName, hGains'⟩

end Command

end EntityScript
