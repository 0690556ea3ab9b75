import EntityScript.Proofs.ShortCircuit
import EntityScript.Proofs.Lookahead
import EntityScript.Proofs.Twins

/-! What acts make of the world does not depend on the script they run in. Two dispatches in worlds that
differ only in their scripts stand at places of their own and log lines of their own. What reads neither
script comes to the same in both. -/
namespace EntityScript

/-- The entity without its scripts. -/
def Entity.bare (e : Entity) : Entity := { e with script := .empty, overriding := .empty }

/-- The timer without the line that it runs. -/
def Timer.bare (t : Timer) : Timer := { t with script := .empty, pos := 0 }

/-- The timers without the lines that they run. -/
def TimerSet.bare (s : TimerSet) : TimerSet := ⟨s.slots.map (Option.map Timer.bare)⟩

/-- The world without the scripts in it. -/
def World.bare (w : World) : World := { w with
  entities := w.entities.modifyAll Entity.bare
  timers := w.timers.bare }

namespace EntityTable

theorem get?_modifyAll (t : EntityTable) (f : Entity → Entity) (id : EntityId) :
    (t.modifyAll f).get? id = (t.get? id).map f := by
  simp only [get?, modifyAll, List.find?_map, Option.map_map]
  rfl

theorem contains_modifyAll (t : EntityTable) (f : Entity → Entity) (id : EntityId) :
    (t.modifyAll f).contains id = t.contains id := by
  simp only [contains, modifyAll, List.any_map]
  rfl

theorem modify_modifyAll (t : EntityTable) {f g : Entity → Entity} (h : ∀ e, g (f e) = f (g e))
    (id : EntityId) : (t.modifyAll g).modify id f = (t.modify id f).modifyAll g := by
  simp only [modify, modifyAll, List.map_map, EntityTable.mk.injEq, and_true]
  refine List.map_congr_left fun m _ => ?_
  simp only [Function.comp]
  split <;> simp [h]

theorem remove_modifyAll (t : EntityTable) (f : Entity → Entity) (id : EntityId) :
    (t.modifyAll f).remove id = (t.remove id).modifyAll f := by
  simp only [remove, modifyAll, List.filter_map]
  rfl

/-- Entities are found by what scripts do not change. -/
theorem resolve?_bare (t : EntityTable) (word : String) (this : EntityId) :
    (t.modifyAll Entity.bare).resolve? word this = t.resolve? word this := by
  have hLive := t.contains_modifyAll Entity.bare this
  have hPlayer : (t.modifyAll Entity.bare).player? = t.player? := by
    simp only [player?, modifyAll, List.find?_map, Option.map_map]
    rfl
  have hIdent (ident : String) : (t.modifyAll Entity.bare).find? ident = t.find? ident := by
    simp only [find?, modifyAll, List.find?_map, Option.map_map]
    rfl
  simp only [resolve?, hLive, hPlayer, hIdent]

theorem identOf_bare (t : EntityTable) (id : Option EntityId) :
    (t.modifyAll Entity.bare).identOf id = t.identOf id := by
  cases id with
  | none => rfl
  | some id =>
      simp only [identOf, Option.bind_some, get?_modifyAll, Option.map_map]
      rfl

end EntityTable

namespace TimerSet

theorem holds_bare (owner : EntityId) (name : String) (slot : Option Timer) :
    holds owner name (slot.map Timer.bare) = holds owner name slot := by
  cases slot <;> rfl

theorem ownedBy_bare (owner : EntityId) (slot : Option Timer) :
    ownedBy owner (slot.map Timer.bare) = ownedBy owner slot := by
  cases slot <;> rfl

theorem free_bare (s : TimerSet) {p : Option Timer → Bool} (h : ∀ slot, p (slot.map Timer.bare) = p slot) :
    s.bare.free p = (s.free p).bare := by
  simp only [free, bare, Array.map_map, TimerSet.mk.injEq]
  refine Array.map_congr_left fun slot _ => ?_
  simp only [Function.comp, h]
  split <;> rfl

theorem countFor_bare (s : TimerSet) (owner : EntityId) : s.bare.countFor owner = s.countFor owner := by
  simp only [countFor, bare, Array.countP_map]
  exact congrArg (s.slots.countP ·) (funext (ownedBy_bare owner))

theorem contains_bare (s : TimerSet) (owner : EntityId) (name : String) :
    s.bare.contains owner name = s.contains owner name := by
  simp only [contains, bare, Array.any_map]
  exact congrArg (s.slots.any ·) (funext (holds_bare owner name))

theorem defaultName_bare (s : TimerSet) (owner : EntityId) :
    s.bare.defaultName owner = s.defaultName owner := by
  have hFrom (fuel n : Nat) : s.bare.defaultNameFrom owner fuel n = s.defaultNameFrom owner fuel n := by
    induction fuel generalizing n with
    | zero => rfl
    | succ fuel ih => rw [defaultNameFrom, defaultNameFrom, contains_bare, ih]
  rw [defaultName, defaultName, countFor_bare, hFrom]

theorem start_bare (s : TimerSet) (t : Timer) : s.bare.start t.bare = (s.start t).bare := by
  have hStop := s.free_bare (holds_bare t.owner t.name)
  have hPut (s : TimerSet) : s.bare.put t.bare = (s.put t).bare := by
    have hFree : s.bare.slots.findIdx? Option.isNone = s.slots.findIdx? Option.isNone := by
      simp only [bare, Array.findIdx?_map]
      exact congrArg (s.slots.findIdx? ·) (funext fun slot => by cases slot <;> rfl)
    unfold put
    rw [hFree]
    split
    · simp [bare, Array.map_setIfInBounds]
    · simp [bare]
  change (s.bare.free (holds t.owner t.name)).put t.bare = _
  rw [hStop, hPut]
  rfl

end TimerSet

/-- The same game, the same world but for its scripts, and return points and places that correspond; the
logs may differ. -/
structure Progress.Alike (K : List Call → List Call → Prop) (P : Nat → Nat → Prop) (p p' : Progress) :
    Prop where
  world : p'.session.world.bare = p.session.world.bare
  host : p'.session.host = p.session.host
  calls : K p.calls p'.calls
  pos : P p.pos p'.pos

/-- The places do not matter. -/
abbrev Progress.SameWorld (K : List Call → List Call → Prop) : Progress → Progress → Prop :=
  Alike K fun _ _ => True

theorem Progress.Alike.sameWorld {K : List Call → List Call → Prop} {P : Nat → Nat → Prop}
    {p p' : Progress} (h : Alike K P p p') : SameWorld K p p' :=
  ⟨h.world, h.host, h.calls, True.intro⟩

/-- The same dispatch in another script. -/
def Invocation.within (inv : Invocation) (script : Script) : Invocation := { inv with script }

/-- One act after another in each of two dispatches. -/
theorem Outcomes.act_bind {E R R' : Progress → Progress → Prop} {inv inv' : Invocation} {α β : Type}
    {Q : α → Prop} {Q' : β → Prop} {x x' : Act α} {f f' : α → Act β} {p p' : Progress}
    (hx : Outcomes E R Q (x inv p) (x' inv' p'))
    (hf : ∀ a q q', Q a → R q q' → Outcomes E R' Q' (f a inv q) (f' a inv' q')) :
    Outcomes E R' Q' ((x >>= f) inv p) ((x' >>= f') inv' p') := by
  rw [Act.bind_apply, Act.bind_apply]
  generalize x inv p = r at hx ⊢
  generalize x' inv' p' = r' at hx ⊢
  cases hx with
  | ok hValue hState => exact hf _ _ _ hValue hState
  | error hState => exact .error hState

namespace Act

open Progress (Alike SameWorld)

variable {E R : Progress → Progress → Prop} {K : List Call → List Call → Prop} {P : Nat → Nat → Prop}
  {inv : Invocation} {s s' : Script} {α β : Type}

/-- Performed in two scripts, from where `R` holds, the acts come to the same value, where `R` holds
again, or to the same halt, where `E` holds. -/
def Agree (E R : Progress → Progress → Prop) (inv : Invocation) (s s' : Script) (act act' : Act α) :
    Prop :=
  ∀ p p', R p p' → Outcomes E R (fun _ => True) (act (inv.within s) p) (act' (inv.within s') p')

/-- What the act does does not depend on the script, and it stays at its place. -/
abbrev Uniform (K : List Call → List Call → Prop) (P : Nat → Nat → Prop) (inv : Invocation)
    (s s' : Script) (act : Act α) : Prop := Agree (Alike K P) (Alike K P) inv s s' act act

namespace Agree

theorem pure (a : α) : Agree E R inv s s' (Pure.pure a) (Pure.pure a) :=
  fun _ _ hp => .ok True.intro hp

theorem bind {x x' : Act α} {f f' : α → Act β} (hx : Agree E R inv s s' x x')
    (hf : ∀ a, Agree E R inv s s' (f a) (f' a)) : Agree E R inv s s' (x >>= f) (x' >>= f') :=
  fun p p' hp => (hx p p' hp).act_bind fun a q q' _ hq => hf a q q' hq

theorem discard {x x' : Act α} (hx : Agree E R inv s s' x x') :
    Agree E R inv s s' (Functor.discard x) (Functor.discard x') := hx.bind fun _ => .pure ()

theorem mapM {f : α → Act β} {as : List α} (hf : ∀ a, Agree E R inv s s' (f a) (f a)) :
    Agree E R inv s s' (as.mapM f) (as.mapM f) := by
  induction as with
  | nil => exact .pure []
  | cons a as ih =>
      rw [List.mapM_cons]
      exact (hf a).bind fun _ => ih.bind fun _ => .pure _

theorem invocation {f f' : Invocation → Act β}
    (hf : Agree E R inv s s' (f (inv.within s)) (f' (inv.within s'))) :
    Agree E R inv s s' (Act.invocation >>= f) (Act.invocation >>= f') := hf

/-- Acts that only log. -/
theorem logs {x x' : Act Unit} (hx : Logs x) (hx' : Logs x') : Agree (Alike K P) (Alike K P) inv s s' x x' := by
  intro p p' hp
  obtain ⟨log, hRun⟩ := hx (inv.within s) p
  obtain ⟨log', hRun'⟩ := hx' (inv.within s') p'
  rw [hRun, hRun']
  exact .ok True.intro ⟨hp.world, hp.host, hp.calls, hp.pos⟩

/-- At a halt the places do not matter. -/
theorem sameWorld {x x' : Act α} (h : Agree (Alike K P) (Alike K P) inv s s' x x') :
    Agree (SameWorld K) (Alike K P) inv s s' x x' :=
  fun p p' hp => Outcomes.mono (h p p' hp) (fun _ _ h => h.sameWorld) (fun _ _ h => h)
    fun _ _ => True.intro

theorem emit (notes notes' : List Note) : Agree (Alike K P) (Alike K P) inv s s' (Act.emit notes) (Act.emit notes') :=
  .logs (.emit notes) (.emit notes')

theorem warn (message message' : String) :
    Agree (Alike K P) (Alike K P) inv s s' (Act.warn message) (Act.warn message') := .logs (.warn message) (.warn message')

/-- Moving to wherever. -/
theorem jumpTo (pos pos' : Nat) : Agree (SameWorld K) (SameWorld K) inv s s'
    (modify fun p => { p with pos } : Act Unit) (modify fun p => { p with pos := pos' } : Act Unit) :=
  fun _ _ hp => .ok True.intro ⟨hp.world, hp.host, hp.calls, True.intro⟩

/-- Asking the game the same. -/
theorem setHost (host : Host) : Uniform K P inv s s' (Act.onSession fun t => { t with host }) :=
  fun _ _ hp => .ok True.intro ⟨hp.world, rfl, hp.calls, hp.pos⟩

/-- Going on with what the world has besides scripts. -/
theorem world {f f' : World → Act α} (hBare : ∀ w, f' w.bare = f' w)
    (hf : ∀ w, Agree (Alike K P) (Alike K P) inv s s' (f w) (f' w)) :
    Agree (Alike K P) (Alike K P) inv s s' (Act.world >>= f) (Act.world >>= f') := by
  intro p p' hp
  change Paired _ _ (f p.session.world (inv.within s) p) (f' p'.session.world (inv.within s') p')
  rw [← hBare p'.session.world, hp.world, hBare]
  exact hf _ p p' hp

/-- Going on with what the entity has besides scripts. -/
theorem self? {f : Option Entity → Act α} (hBare : ∀ e, f (e.map Entity.bare) = f e)
    (hf : ∀ e, Uniform K P inv s s' (f e)) : Uniform K P inv s s' (Act.self? >>= f) := by
  have hTail : Uniform K P inv s s' (Act.world >>= fun w => f (w.entities.get? inv.entity)) :=
    world (fun w => by rw [World.bare, EntityTable.get?_modifyAll, hBare]) fun w => hf _
  exact hTail

theorem ident : Uniform K P inv s s' Act.ident :=
  self? (fun e => by rw [Option.map_map]; rfl) fun _ => .pure _

theorem resolve? (word : String) : Uniform K P inv s s' (Act.resolve? word) := by
  have hTail : Uniform K P inv s s'
      (Act.world >>= fun w => Pure.pure (w.entities.resolve? word inv.entity)) :=
    world (fun w => by rw [World.bare, EntityTable.resolve?_bare]) fun _ => .pure _
  exact hTail

theorem draw (bound : Float) : Uniform K P inv s s' (Act.draw bound) := by
  intro p p' hp
  have hRandom : p'.session.world.bare.random = p.session.world.bare.random := by rw [hp.world]
  change p'.session.world.random = p.session.world.random at hRandom
  rw [Act.draw, world_bind, world_bind]
  unfold World.draw
  rw [hRandom]
  split
  · exact .ok True.intro hp
  · split
    · exact .ok True.intro ⟨congrArg (fun w : World => { w with
        random := (p.session.world.random.below bound 1000).2 }) hp.world, hp.host, hp.calls, hp.pos⟩
    · exact .error hp

theorem systemValue (name : String) :
    Uniform K P inv s s' (Act.systemValue name) := by
  apply Agree.invocation
  split
  · exact ident.bind fun _ => .pure _
  · exact world (fun w => by rw [World.bare, EntityTable.identOf_bare]) fun _ => .pure _
  · exact world (fun _ => rfl) fun _ => .pure _
  · exact .pure _
  · exact world (fun _ => rfl) fun _ => self? (fun e => by cases e <;> rfl) fun _ => .pure _
  · exact (draw _).bind fun _ => .pure _
  · apply (resolve? _).bind
    intro target
    refine world (fun w => ?_) fun w => self? (fun e => ?_) fun e => ?_
    · cases target with
      | none => rfl
      | some id =>
          simp only [Option.bind_some, World.bare, EntityTable.get?_modifyAll]
          cases w.entities.get? id with
          | none => rfl
          | some other =>
              congr 1
              funext e
              cases e <;> rfl
    · cases e <;> cases target.bind w.entities.get? <;> rfl
    · split
      · exact .pure _
      · exact .pure _
  · -- The game was asked the same before, so it answers the same.
    intro p p' hp
    rw [get_bind, get_bind]
    dsimp only
    rw [hp.host]
    cases (p.session.host.ask name).1 with
    | some v => exact ((setHost _).bind fun _ => .pure _) p p' hp
    | none => exact ((setHost _).bind fun _ => (warn _ _).bind fun _ => .pure _) p p' hp

theorem table? (scope : Scope) : Uniform K P inv s s' (Act.table? scope) := by
  unfold Act.table?
  split
  · exact world (fun _ => rfl) fun _ => .pure _
  · exact self? (fun e => by rw [Option.map_map]; rfl) fun _ => .pure _

theorem readKey (key : VarKey) : Uniform K P inv s s' (Act.readKey key) :=
  (table? _).bind fun _ => .pure _

theorem readVar (name : String) : Uniform K P inv s s' (Act.readVar name) := by
  unfold Act.readVar
  split
  · exact systemValue name
  · split
    · exact readKey _
    · exact .pure _

theorem referenceText (reference : List Char) :
    Uniform K P inv s s' (Act.referenceText reference) := by
  unfold Act.referenceText
  split
  · exact (readVar _).bind fun _ => .pure _
  · exact (readVar _).bind fun _ => .pure _

theorem pieceText : ∀ piece, Uniform K P inv s s' (Act.pieceText piece)
  | .literal _ => .pure _
  | .reference _ => referenceText _
  | .unmatched _ => (warn _ _).bind fun _ => .pure _

theorem expand (word : String) : Uniform K P inv s s' (Act.expand word) :=
  (mapM pieceText).bind fun _ => .pure _

theorem variableOperand (word : String) :
    Uniform K P inv s s' (Act.variableOperand word) := by
  apply (readVar _).bind
  intro v
  split
  · exact .pure _
  · exact .pure _

theorem literalOperand (word : String) (kind : Kind) :
    Uniform K P inv s s' (Act.literalOperand word kind) := by
  apply (expand _).bind
  intro text
  split
  · exact .pure _
  · exact .pure _

theorem operand (word : String) (kind : Kind) :
    Uniform K P inv s s' (Act.operand word kind) := by
  unfold Act.operand
  split
  · exact variableOperand _
  · exact literalOperand _ _

theorem equalityOperands (left right : String) :
    Uniform K P inv s s' (Act.equalityOperands left right) := by
  unfold Act.equalityOperands
  split
  · exact (variableOperand _).bind fun _ => (operand _ _).bind fun _ => .pure _
  · split
    · exact (variableOperand _).bind fun _ => (literalOperand _ _).bind fun _ => .pure _
    · apply (expand _).bind
      intro _
      apply (expand _).bind
      intro _
      split
      · exact .pure _
      · exact .pure _

theorem operands {c c' : Comparison} (hLeft : c'.left = c.left) (hRelation : c'.relation = c.relation)
    (hRight : c'.right = c.right) : Agree (Alike K P) (Alike K P) inv s s' (Act.operands c) (Act.operands c') := by
  have hOperands (kind : Kind) : Uniform K P inv s s' (do
      let a ← Act.operand c.left kind
      let b ← Act.operand c.right kind
      return (a, b)) :=
    (operand _ _).bind fun _ => (operand _ _).bind fun _ => .pure _
  unfold Act.operands
  rw [hLeft, hRelation, hRight]
  split
  · exact equalityOperands _ _
  · exact equalityOperands _ _
  all_goals exact hOperands _

theorem readFloat (word : String) : Uniform K P inv s s' (Act.readFloat word) := by
  unfold Act.readFloat
  split
  · exact (readVar _).bind fun _ => .pure _
  · exact .pure _

/-- Changing what the world has besides scripts. -/
theorem onWorld {f f' g : World → World} (hf : ∀ w, (f w).bare = g w.bare)
    (hf' : ∀ w, (f' w).bare = g w.bare) :
    Agree (Alike K P) (Alike K P) inv s s' (Act.onWorld f) (Act.onWorld f') := by
  intro p p' hp
  refine .ok True.intro ⟨?_, hp.host, hp.calls, hp.pos⟩
  change (f' p'.session.world).bare = (f p.session.world).bare
  rw [hf, hf', hp.world]

theorem onSelf {f : Entity → Entity} (hf : ∀ e, (f e).bare = f e.bare) :
    Uniform K P inv s s' (Act.onSelf f) := by
  apply Agree.invocation
  refine world (fun w => ?_) fun w => ?_
  · simp only [World.bare, EntityTable.contains_modifyAll]
  · have hChange : Uniform K P inv s s' (Act.onWorld fun w =>
        { w with entities := w.entities.modify inv.entity f }) := by
      refine onWorld (g := fun w => { w with entities := w.entities.modify inv.entity f })
        (fun w => ?_) fun w => ?_
      all_goals simp only [World.bare, EntityTable.modify_modifyAll _ hf]
    dsimp only [Invocation.within]
    split
    · exact hChange.bind fun _ => .pure _
    · exact .pure _

theorem onTable (scope : Scope) (f : Variables → Variables) :
    Uniform K P inv s s' (Act.onTable scope f) := by
  unfold Act.onTable
  split
  · exact (onWorld (g := fun w => { w with globals := f w.globals }) (fun _ => rfl) fun _ => rfl).bind
      fun _ => .pure _
  · exact onSelf fun _ => rfl

theorem writeVar (key : VarKey) (v : Value) : Uniform K P inv s s' (Act.writeVar key v) :=
  onTable _ _

theorem unsetVar (key : VarKey) : Uniform K P inv s s' (Act.unsetVar key) :=
  (table? _).bind fun _ => (onTable _ _).discard.bind fun _ => .pure _

/-- Relations hold between entities whatever their scripts are. -/
theorem holds?_bare (t : EntityTable) (this : EntityId) (r : Relation) (a b : Operand) :
    holds? (t.modifyAll Entity.bare) this r a b = holds? t this r a b := by
  have hNamed (word group : String) (sets : Entity → NameSet) (hSets : ∀ e, sets e.bare = sets e) :
      (((t.modifyAll Entity.bare).resolve? word this).bind (t.modifyAll Entity.bare).get?).any
          (fun e => (sets e).contains group) =
        ((t.resolve? word this).bind t.get?).any fun e => (sets e).contains group := by
    rw [EntityTable.resolve?_bare]
    cases t.resolve? word this with
    | none => rfl
    | some id =>
        simp only [Option.bind_some, EntityTable.get?_modifyAll]
        cases t.get? id with
        | none => rfl
        | some e => simp only [Option.map_some, Option.any_some, hSets]
  unfold holds?
  simp only [hNamed _ _ Entity.groups fun _ => rfl, hNamed _ _ Entity.types fun _ => rfl]

theorem compare {c c' : Comparison} (hLeft : c'.left = c.left) (hRelation : c'.relation = c.relation)
    (hRight : c'.right = c.right) : Agree (SameWorld K) (SameWorld K) inv s s' (Act.compare c) (Act.compare c') := by
  apply (emit _ _).bind
  intro _
  apply (jumpTo _ _).bind
  intro _
  apply (operands hLeft hRelation hRight).bind
  intro _
  refine world (fun w => ?_) fun w => .invocation ?_
  · simp only [World.bare, holds?_bare]
  dsimp only [Invocation.within]
  rw [hRelation]
  split
  · exact .pure _
  · exact (warn _ _).bind fun _ => .pure _

mutual

/-- Conditions with the same comparisons come to the same. -/
theorem judge {c c' : Condition} (h : c.Matches c') : Agree (SameWorld K) (SameWorld K) inv s s' (Act.judge c) (Act.judge c') := by
  cases h with
  | comparison hLeft hRelation hRight =>
      exact (compare hLeft hRelation hRight).bind fun _ => .pure _
  | negation hInner => exact (judge hInner).bind fun _ => .pure _
  | junction all hParts => exact judgeParts all _ hParts
  | broken b b' => exact (emit _ _).bind fun _ => .pure _
  | cut b b' hInner =>
      apply (judge hInner).bind
      intro j
      dsimp only
      split
      · exact (emit _ _).bind fun _ => .pure _
      · exact .pure _

theorem judgeParts (all : Bool) (sofar : Judgement) {cs cs' : List Condition}
    (h : Condition.MatchesParts cs cs') :
    Agree (SameWorld K) (SameWorld K) inv s s' (Act.judgeParts all sofar cs) (Act.judgeParts all sofar cs') := by
  cases h with
  | nil => exact .pure _
  | cons hPart hOthers =>
      rw [Act.judgeParts, Act.judgeParts]
      split
      · apply (judge hPart).bind
        intro j
        split
        · exact .pure _
        · exact judgeParts all _ hOthers
      · apply (emit _ _).bind
        intro _
        rw [hPart.breaks]
        split
        · exact .pure _
        · exact judgeParts all sofar hOthers

end

end Agree

end Act

end EntityScript
