import EntityScript.Engine
import EntityScript.Proofs.Alike
import Mathlib.Data.List.Forall2

/-! Suppressions of which none keeps a script running only mute. Whatever is asked of a session goes the
same way with them and without: the worlds stay the same, the game is asked and told the same, and the
logs agree line by line, except that a diagnostic about a covered token is a debug line about the same
place. -/
namespace EntityScript

/-- No entry keeps a script running behind the end of a block. -/
def Suppressions.Tacit (table : Suppressions) : Prop := ∀ e ∈ table.entries, e.resume = false

theorem Suppressions.Tacit.resumes {table : Suppressions} (hTacit : table.Tacit) (script : String)
    (pos : Nat) : table.resumes script pos = false := by
  unfold Suppressions.resumes
  cases hEntry : table.find? script pos "\x7d" with
  | none => rfl
  | some e => exact hTacit e (List.mem_of_find?_eq_some hEntry)

/-- The line itself, or, for a diagnostic about a token that the table covers, the debug line about the
same place of the same script and with the same message, which leaves the calls out. -/
inductive LogLine.Muted (table : Suppressions) : LogLine → LogLine → Prop where
  | same (l : LogLine) : Muted table l l
  | muted {inv : Invocation} {token : String} {pos : Nat} (level : Level) (ident message : String)
      (calls : List Call) (hCovered : table.covers inv.script.name pos token = true) :
      Muted table
        ⟨level, .script, Act.location inv ident pos ++ ": " ++ message ++
          Act.callTrace inv.script calls⟩
        ⟨.debug, .script, Act.location inv ident pos ++ ": " ++ ("suppressed: " ++ message)⟩

/-- The same world and game, and logs that agree line by line but for what the table mutes. -/
structure Session.Hushed (table : Suppressions) (s s' : Session) : Prop where
  world : s'.world = s.world
  host : s'.host = s.host
  log : List.Forall₂ (LogLine.Muted table) s.log.toList s'.log.toList

namespace Session.Hushed

variable {table : Suppressions} {s s' : Session}

theorem refl (s : Session) : Hushed table s s :=
  ⟨rfl, rfl, List.forall₂_same.mpr fun l _ => .same l⟩

theorem push {l l' : LogLine} (h : Hushed table s s') (hLine : LogLine.Muted table l l') :
    Hushed table { s with log := s.log.push l } { s' with log := s'.log.push l' } := by
  refine ⟨h.world, h.host, ?_⟩
  rw [Array.toList_push, Array.toList_push]
  exact List.rel_append h.log (.cons hLine .nil)

theorem write (h : Hushed table s s') (level : Level) (topic : Topic) (message : String) :
    Hushed table (s.write level topic message) (s'.write level topic message) :=
  h.push (.same _)

theorem onWorld (h : Hushed table s s') (f : World → World) :
    Hushed table (s.onWorld f) (s'.onWorld f) :=
  ⟨congrArg f h.world, h.host, h.log⟩

theorem onHost (h : Hushed table s s') (f : Host → Host) :
    Hushed table { s with host := f s.host } { s' with host := f s'.host } :=
  ⟨h.world, congrArg f h.host, h.log⟩

theorem look (h : Hushed table s s') {script : Script} {f : Session → Session}
    (hLook : s.Look script f) : Hushed table (f s) (f s') := by
  cases hLook with
  | write level topic message => exact h.write level topic message
  | ask name => exact h.onHost fun host => (host.ask name).2
  | draw => exact h.onWorld _

theorem enqueue (h : Hushed table s s') (e : QueuedEvent) :
    Hushed table (s.enqueue e).2 (s'.enqueue e).2 := by
  unfold Session.enqueue
  rw [h.world]
  dsimp only
  have hPushed := h.onWorld fun w => { w with queue := (s.world.queue.push e).2 }
  split
  · exact hPushed
  · exact hPushed.write _ _ _

theorem deed (h : Hushed table s s') {inv : Invocation} {f : Session → Session}
    (hDeed : s.Deed inv f) : Hushed table (f s) (f s') := by
  cases hDeed with
  | chance => exact h.onWorld _
  | give c => exact h.onHost fun host => (host.give c).2
  | globals => exact h.onWorld _
  | modify => exact h.onWorld _
  | free => exact h.onWorld _
  | start =>
      unfold Session.startTimer
      exact (h.write _ _ _).onWorld _
  | enqueue => exact h.enqueue _

theorem destroy (h : Hushed table s s') (id : EntityId) :
    Hushed table (s.destroy id).2 (s'.destroy id).2 := by
  unfold Session.destroy
  rw [h.world]
  cases s.world.entities.get? id with
  | none => exact h
  | some e => exact ((h.onWorld _).write _ _ _).onHost fun host => host.noteDestroyed id

theorem noteScript (h : Hushed table s s') (script : Script) :
    Hushed table (s.noteScript script) (s'.noteScript script) := h.write _ _ _

/-- Noting the scripts that are there. -/
theorem noteEach (h : Hushed table s s') (scripts : List (Option Script)) :
    Hushed table (scripts.foldl (fun s script => script.elim s fun script => s.noteScript script) s)
      (scripts.foldl (fun s script => script.elim s fun script => s.noteScript script) s') := by
  induction scripts generalizing s s' with
  | nil => exact h
  | cons script scripts ih =>
      cases script with
      | none => exact ih h
      | some script => exact ih (h.noteScript script)

theorem spawn (h : Hushed table s s') (b : Blueprint) :
    Hushed table (s.spawn b).2 (s'.spawn b).2 := by
  have hNoted := h.noteEach [some .empty, some .empty, b.script, b.overriding]
  unfold Session.spawn
  dsimp only
  rw [hNoted.world]
  exact (hNoted.onWorld _).write _ _ _

end Session.Hushed

namespace Act

variable {table : Suppressions} {inv : Invocation}

/-- A dispatch with suppressions sees the same as one without. -/
theorem sees_hushed (inv : Invocation) :
    Sees (Session.Hushed table) inv (inv.under inv.dry table) where
  under := ⟨_, _, rfl⟩
  world h := h.world
  answers h := congrArg (fun host : Host => host.record.answers) h.host
  look h hLook := h.look hLook

/-- The name of an entity as diagnostics give it. -/
def nameOf (w : World) (id : EntityId) : String :=
  ((w.entities.get? id).map Entity.ident).getD "unknown"

/-- A diagnostic is one line. -/
theorem diagnose_eq (level : Level) (traced : Bool) (pos : Nat) (message : String) (inv : Invocation)
    (p : Progress) : diagnose level traced pos message inv p =
      .ok () ⟨p.session.write level .script (location inv (nameOf p.session.world inv.entity) pos ++
        ": " ++ message ++ if traced then callTrace inv.script p.calls else ""), p.pos, p.calls⟩ := rfl

/-- Where the table covers a token, the diagnostic about it is muted. -/
theorem diagnoseToken_hushed (hPlain : inv.suppressions = .empty) (level : Level)
    (token message : String) :
    Twin (Session.Hushed table) inv (inv.under inv.dry table) (fun _ => True)
      (diagnoseToken level token message) := by
  intro p p' hp
  have hNone : inv.suppressions.covers inv.script.name p.pos token = false := by
    rw [hPlain]
    rfl
  unfold diagnoseToken
  rw [invocation_bind, invocation_bind, get_bind, get_bind, hp.pos]
  rw [hNone]
  simp only [Bool.false_eq_true, if_false]
  by_cases hCovered : table.covers inv.script.name p.pos token = true
  · have hHere : (inv.under inv.dry table).suppressions.covers (inv.under inv.dry table).script.name
        p.pos token = true := hCovered
    rw [if_pos hHere, diagnose_eq, diagnose_eq, hp.session.world]
    simp only [if_true, Bool.false_eq_true, if_false, String.append_empty]
    exact .ok True.intro ⟨hp.session.push (.muted level _ message p.calls hCovered), hp.pos, hp.calls⟩
  · have hHere : ¬ (inv.under inv.dry table).suppressions.covers
        (inv.under inv.dry table).script.name p.pos token = true := hCovered
    rw [if_neg hHere]
    exact (sees_hushed inv).diagnose level true p.pos message p p' hp

end Act

namespace Session.Hushed

/-- Through the same dispatches, one of them with tacit suppressions and one without, sessions stay the
same but for what is muted. -/
theorem congruence {table : Suppressions} (hTacit : table.Tacit) :
    Congruence .empty table (Hushed table) where
  world h := h.world
  answers h := congrArg (fun host : Host => host.record.answers) h.host
  responses h := congrArg (fun host : Host => host.record.responses) h.host
  look h hLook := h.look hLook
  deed h _ hDeed := h.deed hDeed
  destroy id _ _ h := h.destroy id
  depth f _ _ h := h.onWorld fun w => { w with depth := f w.depth }
  token _ hPlain := Act.diagnoseToken_hushed hPlain
  resumes script pos := hTacit.resumes script pos

end Session.Hushed

/-- The command does not heed the suppressions: with them and without it goes the same way for a live
entity, but for what is muted. -/
def Command.Heedless (table : Suppressions) (c : Command) : Prop :=
  ∀ inv : Invocation, inv.suppressions = .empty →
    c.InStep (Session.WhileLive (Session.Hushed table) inv.entity) (Session.Hushed table) inv
      (inv.under inv.dry table)

/-- Every command is one that sessions have, or at least one that does not heed the suppressions. -/
def Registry.Heedless (table : Suppressions) (r : Registry) : Prop :=
  ∀ e ∈ r.entries, e.2 ∈ Command.builtins ∨ e.2.Heedless table

namespace Registry.Heedless

variable {table : Suppressions} {r r' : Registry}

theorem inStep (hr : r.Heedless table) (hTacit : table.Tacit) :
    r.InStep .empty table (Session.Hushed table) := by
  intro word c hFind inv hPlain
  rcases hr _ (Registry.mem_of_find? hFind) with hBuiltin | hHeedless
  · intro p p' hp
    have hT := Session.Hushed.congruence hTacit
    exact Command.builtins_twin (hT.serves hPlain) (fun _ _ h => h.1)
      (fun id _ _ h => hT.destroy id h.1) hBuiltin hp
  · exact hHeedless inv hPlain

theorem add? (hr : r.Heedless table) {c : Command}
    (hCommand : c ∈ Command.builtins ∨ c.Heedless table) (h : r.add? c = some r') :
    r'.Heedless table := by
  intro e he
  rcases Registry.mem_of_add? h he with hOld | rfl
  · exact hr e hOld
  · exact hCommand

end Registry.Heedless

namespace Rules

variable {rules : Rules} {table : Suppressions}

theorem hushed_upheld (hTacit : table.Tacit) (hCommands : rules.registry.Heedless table) :
    (rules.under .empty).Upholds table (fun _ _ => True) (Session.Hushed table)
      (Session.Hushed table) where
  toCongruence := Session.Hushed.congruence hTacit
  halt _ _ h := h
  plain _ h := h.onWorld _
  spawn b _ _ h := h.spawn b
  timer i slot _ _ h _ := h.onWorld fun w => { w with timers := w.timers.setSlot i slot }
  queue e _ _ h _ := h.enqueue e
  reset h := h.onWorld _
  drain fuel limit _ _ h :=
    @drain_paired (rules.under .empty) _ _ (Session.Hushed.congruence hTacit)
      (hCommands.inStep hTacit)
      (fun i number _ _ h => h.onWorld fun w => { w with queue := w.queue.release i number }) fuel
      limit _ _ h

end Rules

/-- What is done with an engine: a request, a command that is added, and changes from outside to the
world and to the game. -/
inductive Operation where
  | request (r : Request)
  | register (c : Command)
  | world (f : World → World)
  | host (f : Host → Host)

namespace Engine

/-- The same engine with other suppressions. -/
def under (e : Engine) (table : Suppressions) : Engine := { e with rules := e.rules.under table }

/-- Carries out an operation and gives its response. -/
def operate (fuel : Nat) (e : Engine) : Operation → Except Halt Response × Engine
  | .request r => e.perform fun rules => r.respond rules fuel
  | .register c => ((.ok (.settled (e.register c).1) : Except Halt Response), (e.register c).2)
  | .world f => (.ok .done, { e with session := e.session.onWorld f })
  | .host f => (.ok .done, { e with session := { e.session with host := f e.session.host } })

/-- Carries out operations one after the other, up to the first that halts, and gives their
responses. -/
def operateAll (fuel : Nat) : List Operation → Engine → Except Halt (List Response) × Engine
  | [], e => (.ok [], e)
  | o :: os, e =>
    match e.operate fuel o with
    | (.error halt, e) => (.error halt, e)
    | (.ok response, e) =>
      match operateAll fuel os e with
      | (.error halt, e) => (.error halt, e)
      | (.ok responses, e) => (.ok (response :: responses), e)

/-- The second engine has the suppressions of the table and the first none; besides, only what is muted
tells them apart. -/
structure Hushed (table : Suppressions) (e e' : Engine) : Prop where
  plain : e.rules.suppressions = .empty
  rules : e'.rules = e.rules.under table
  commands : e.rules.registry.Heedless table
  session : e.session.Hushed table e'.session

variable {table : Suppressions} {e e' : Engine}

theorem perform_hushed (hTacit : table.Tacit) (fuel : Nat) (h : e.Hushed table e') (r : Request) :
    (e'.perform fun rules => r.respond rules fuel).1 = (e.perform fun rules => r.respond rules fuel).1 ∧
      (e.perform fun rules => r.respond rules fuel).2.Hushed table
        (e'.perform fun rules => r.respond rules fuel).2 := by
  have hPlain : e.rules.under .empty = e.rules := by
    rw [← h.plain]
    rfl
  have hFits : r.Fits (fun _ _ => True) e.session := by cases r <;> exact True.intro
  have hBoth := Request.respond_outcomes (Rules.hushed_upheld hTacit h.commands)
    (h.commands.inStep hTacit) fuel r h.session hFits
  rw [hPlain, ← h.rules] at hBoth
  unfold perform
  dsimp only
  generalize r.respond e.rules fuel e.session = result at hBoth ⊢
  generalize r.respond e'.rules fuel e'.session = result' at hBoth ⊢
  cases hBoth with
  | ok _ hOn => exact ⟨rfl, h.plain, h.rules, h.commands, hOn⟩
  | error hOn => exact ⟨rfl, h.plain, h.rules, h.commands, hOn⟩

theorem register_hushed (h : e.Hushed table e') {c : Command}
    (hCommand : c ∈ Command.builtins ∨ c.Heedless table) :
    (e'.register c).1 = (e.register c).1 ∧ (e.register c).2.Hushed table (e'.register c).2 := by
  have hRegistry : e'.rules.registry = e.rules.registry := by
    rw [h.rules]
    rfl
  unfold register
  rw [hRegistry]
  cases hAdd : e.rules.registry.add? c with
  | none => exact ⟨rfl, h⟩
  | some registry =>
      refine ⟨rfl, h.plain, ?_, h.commands.add? hCommand hAdd, h.session.push (.same _)⟩
      dsimp only
      rw [h.rules]
      rfl

theorem operate_hushed (hTacit : table.Tacit) (fuel : Nat) (h : e.Hushed table e') {o : Operation}
    (hAdded : ∀ c, o = .register c → c ∈ Command.builtins ∨ c.Heedless table) :
    (e'.operate fuel o).1 = (e.operate fuel o).1 ∧
      (e.operate fuel o).2.Hushed table (e'.operate fuel o).2 := by
  cases o with
  | request r => exact perform_hushed hTacit fuel h r
  | register c =>
      obtain ⟨hAnswer, hOn⟩ := register_hushed h (hAdded c rfl)
      exact ⟨congrArg (fun a => Except.ok (Response.settled a)) hAnswer, hOn⟩
  | world f => exact ⟨rfl, h.plain, h.rules, h.commands, h.session.onWorld f⟩
  | host f => exact ⟨rfl, h.plain, h.rules, h.commands, h.session.onHost f⟩

theorem operateAll_hushed (hTacit : table.Tacit) (fuel : Nat) {ops : List Operation}
    (hAdded : ∀ c, .register c ∈ ops → c ∈ Command.builtins ∨ c.Heedless table)
    (h : e.Hushed table e') :
    (operateAll fuel ops e').1 = (operateAll fuel ops e).1 ∧
      (operateAll fuel ops e).2.Hushed table (operateAll fuel ops e').2 := by
  induction ops generalizing e e' with
  | nil => exact ⟨rfl, h⟩
  | cons o ops ih =>
      obtain ⟨hSame, hOn⟩ := operate_hushed hTacit fuel h (o := o) fun c ho =>
        hAdded c (ho ▸ List.mem_cons_self)
      unfold operateAll
      generalize e.operate fuel o = result at hSame hOn ⊢
      generalize e'.operate fuel o = result' at hSame hOn ⊢
      obtain ⟨response, t⟩ := result
      obtain ⟨response', t'⟩ := result'
      cases hSame
      cases response with
      | error halt => exact ⟨rfl, hOn⟩
      | ok response =>
          obtain ⟨hRest, hEnd⟩ := ih (fun c hc => hAdded c (List.mem_cons_of_mem _ hc)) hOn
          dsimp only
          generalize operateAll fuel ops t = result at hRest hEnd ⊢
          generalize operateAll fuel ops t' = result' at hRest hEnd ⊢
          obtain ⟨responses, u⟩ := result
          obtain ⟨responses', u'⟩ := result'
          cases hRest
          cases responses with
          | error halt => exact ⟨rfl, hEnd⟩
          | ok responses => exact ⟨rfl, hEnd⟩

/-- Suppressions of which none keeps a script running change nothing but the log. Whatever is done with
an engine gets the same responses with them and without, or comes to the same halt; it ends in the same
world, with the same game, and in logs that agree line by line: the diagnostics stand in the same places
and in the same order, and a muted one differs in its level and its text only. -/
theorem suppressions_mute (hTacit : table.Tacit) (fuel : Nat) (ops : List Operation) (e : Engine)
    (hCommands : e.rules.registry.Heedless table)
    (hAdded : ∀ c, .register c ∈ ops → c ∈ Command.builtins ∨ c.Heedless table) :
    (operateAll fuel ops (e.under table)).1 = (operateAll fuel ops (e.under .empty)).1 ∧
    (operateAll fuel ops (e.under table)).2.session.world =
      (operateAll fuel ops (e.under .empty)).2.session.world ∧
    (operateAll fuel ops (e.under table)).2.session.host =
      (operateAll fuel ops (e.under .empty)).2.session.host ∧
    List.Forall₂ (LogLine.Muted table) (operateAll fuel ops (e.under .empty)).2.session.log.toList
      (operateAll fuel ops (e.under table)).2.session.log.toList := by
  have hStart : (e.under .empty).Hushed table (e.under table) := ⟨rfl, rfl, hCommands, .refl _⟩
  obtain ⟨hResponses, hEnd⟩ := operateAll_hushed hTacit fuel hAdded hStart
  exact ⟨hResponses, hEnd.session.world, hEnd.session.host, hEnd.session.log⟩

/-- An entity whose script has an unknown command is initialized. -/
def gibberish : List Operation :=
  [.request (.spawn { className := "npc", script := some (.ofNormal "npc"
    "on init \x7b\n gibber\n accept\n\x7d\n") }), .request (.init ⟨0⟩)]

/-- Suppresses the diagnostic about the unknown command. -/
def gibberishTable : Suppressions := ⟨[⟨"npc", 17, "gibber", false⟩]⟩

/-- An entity was spawned and accepted its event, and a warning was logged on the way. -/
def warned : Except Halt (List Response) × Engine → Bool
  | (.ok [.spawned id, .verdict (.ok v)], e) =>
    id = ⟨0⟩ ∧ v = .accept ∧ (e.session.log.toList.any fun l => l.level = .warn) = true
  | _ => false

set_option maxRecDepth 100000 in
/-- The warning about the unknown command is muted, and the entity is initialized all the same. -/
theorem suppressions_mute_gibberish :
    ∃ plain muted : Engine,
      operateAll 5 gibberish ((start { seed := some 0 } none .silent).under .empty) =
        (.ok [.spawned ⟨0⟩, .verdict (.ok .accept)], plain) ∧
      operateAll 5 gibberish ((start { seed := some 0 } none .silent).under gibberishTable) =
        (.ok [.spawned ⟨0⟩, .verdict (.ok .accept)], muted) ∧
      muted.session.world = plain.session.world ∧
      (plain.session.log.toList.any fun l => l.level = .warn) ∧
      ¬ (muted.session.log.toList.any fun l => l.level = .warn) := by
  have hTacit : gibberishTable.Tacit := by simp [Suppressions.Tacit, gibberishTable]
  obtain ⟨hResponses, hWorld, -, -⟩ := suppressions_mute hTacit 5 gibberish
    (start { seed := some 0 } none .silent)
    (fun e he => .inl (Registry.builtins_ofBuiltins e he).1) (fun c hc => by simp [gibberish] at hc)
  have hPlain : warned (operateAll 5 gibberish
      ((start { seed := some 0 } none .silent).under .empty)) = true := by decide +kernel
  have hMuted : ((operateAll 5 gibberish ((start { seed := some 0 } none .silent).under
      gibberishTable)).2.session.log.toList.any fun l => l.level = .warn) = false := by decide +kernel
  generalize operateAll 5 gibberish ((start { seed := some 0 } none .silent).under gibberishTable) =
    muted at hResponses hWorld hMuted ⊢
  unfold warned at hPlain
  split at hPlain
  · rename_i id v plain hRun
    obtain ⟨rfl, rfl, hWarned⟩ := of_decide_eq_true hPlain
    rw [hRun] at hResponses hWorld
    exact ⟨plain, muted.2, hRun, Prod.ext hResponses rfl, hWorld, hWarned, by simp [hMuted]⟩
  · cases hPlain

end Engine

end EntityScript
