import EntityScript.Entity.Basic

/-!
The entities of a session by their handles, in the order in which they were spawned. Entities are
numbered within their class, so that their names tell them apart.
-/

namespace EntityScript

/-- The live entities in the order of their handles. -/
structure EntityTable where
  members : List (EntityId × Entity)
  /-- The index of the next handle. -/
  next : Nat
  /-- How many entities of a class were spawned. -/
  counts : List (String × Nat)

/-- How a script word refers to an entity. -/
inductive EntityRef where
  | this
  | player
  | nothing
  | ident (word : String)
  deriving DecidableEq, Repr

/-- The reference that a word writes. -/
def EntityRef.parse (word : String) : EntityRef :=
  if word = "self" || word = "me" then .this
  else if word = "player" then .player
  else if word = "none" || word = "" then .nothing
  else .ident word

namespace EntityTable

/-- The table without entities. -/
def empty : EntityTable := ⟨[], 0, []⟩

/-- How many entities of a class were spawned so far. -/
def count (t : EntityTable) (className : String) : Nat := (t.counts.lookup className).getD 0

/-- Adds an entity under the next handle and with the next number of its class. -/
def spawn (t : EntityTable) (e : Entity) : EntityId × EntityTable :=
  let number := t.count e.className + 1
  let id : EntityId := ⟨t.next⟩
  (id, {
    members := t.members ++ [(id, { e with number })]
    next := t.next + 1
    counts := (e.className, number) :: t.counts.filter (·.1 ≠ e.className) })

/-- The entity of a handle. -/
def get? (t : EntityTable) (id : EntityId) : Option Entity :=
  (t.members.find? (·.1 = id)).map Prod.snd

/-- Whether a handle is live. -/
def contains (t : EntityTable) (id : EntityId) : Bool := t.members.any (·.1 = id)

/-- Takes an entity out. -/
def remove (t : EntityTable) (id : EntityId) : EntityTable :=
  { t with members := t.members.filter (·.1 ≠ id) }

/-- Changes the entity of a handle. -/
def modify (t : EntityTable) (id : EntityId) (f : Entity → Entity) : EntityTable :=
  { t with members := t.members.map fun m => if m.1 = id then (m.1, f m.2) else m }

/-- Changes every entity. -/
def modifyAll (t : EntityTable) (f : Entity → Entity) : EntityTable :=
  { t with members := t.members.map fun m => (m.1, f m.2) }

/-- The number of live entities. -/
def size (t : EntityTable) : Nat := t.members.length

/-- The live handles in order. -/
def ids (t : EntityTable) : List EntityId := t.members.map Prod.fst

/-- The first live handle from an index on, the first of all if there is none. -/
def nextLive? (t : EntityTable) (index : Nat) : Option EntityId :=
  match t.ids.find? (index ≤ ·.index) with
  | some id => some id
  | none => t.ids.head?

/-- The first entity of a name. -/
def find? (t : EntityTable) (ident : String) : Option EntityId :=
  (t.members.find? (·.2.ident = ident)).map Prod.fst

/-- The first entity of the player class. -/
def player? (t : EntityTable) : Option EntityId :=
  (t.members.find? (·.2.className = playerClass)).map Prod.fst

/-- The entity that a word refers to, seen from `this`. -/
def resolve? (t : EntityTable) (word : String) (this : EntityId) : Option EntityId :=
  match EntityRef.parse word with
  | .this => if t.contains this then some this else none
  | .player => t.player?
  | .nothing => none
  | .ident ident => t.find? ident

/-- The name of an entity, `none` if there is no such entity. -/
def identOf (t : EntityTable) (id : Option EntityId) : String :=
  ((id.bind t.get?).map Entity.ident).getD "none"

end EntityTable

end EntityScript
