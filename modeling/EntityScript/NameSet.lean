/-!
Sets of names. The names stand in ascending order and each stands once.
-/

namespace EntityScript

/-- A set of names. -/
structure NameSet where
  names : List String
  deriving DecidableEq, Repr

namespace NameSet

/-- The set without names. -/
def empty : NameSet := ⟨[]⟩

/-- Whether a name belongs to the set. -/
def contains (s : NameSet) (name : String) : Bool := s.names.contains name

/-- Puts a name into its place in an ascending list. -/
def place (name : String) : List String → List String
  | [] => [name]
  | n :: ns => if n = name then n :: ns else if name < n then name :: n :: ns else n :: place name ns

/-- Adds a name. -/
def insert (s : NameSet) (name : String) : NameSet := ⟨place name s.names⟩

/-- Removes a name. -/
def erase (s : NameSet) (name : String) : NameSet := ⟨s.names.filter (· ≠ name)⟩

/-- The set of the listed names. -/
def ofList (names : List String) : NameSet := names.foldl insert empty

theorem mem_place {x name : String} {ns : List String} :
    x ∈ place name ns ↔ x = name ∨ x ∈ ns := by
  induction ns with
  | nil => simp [place]
  | cons n ns ih =>
    unfold place
    split
    · rename_i h; subst h; simp
    · split
      · simp
      · simp [ih]; grind

@[simp] theorem contains_insert {s : NameSet} {x name : String} :
    (s.insert name).contains x = true ↔ x = name ∨ s.contains x = true := by
  simp [contains, insert, mem_place]

@[simp] theorem contains_erase {s : NameSet} {x name : String} :
    (s.erase name).contains x = true ↔ x ≠ name ∧ s.contains x = true := by
  simp [contains, erase, and_comm]

end NameSet

end EntityScript
