/-!
Suppressions of diagnostics in scripts that are known to be broken. An entry names a script, the
offset behind a token, and the token. It turns the diagnostic into a debug line; at the end of an
event block it may also keep the script running.
-/

namespace EntityScript

/-- One suppressed diagnostic. -/
structure Suppression where
  script : String
  pos : Nat
  token : String
  /-- At a closing brace: go on behind it. -/
  resume : Bool
  deriving DecidableEq, Repr

/-- The suppressions of a session, one for each place and token. -/
structure Suppressions where
  entries : List Suppression
  deriving DecidableEq, Repr

namespace Suppressions

/-- No suppressions. -/
def empty : Suppressions := ⟨[]⟩

/-- Whether an entry is for a token that ends at an offset of a script. -/
def isFor (script : String) (pos : Nat) (token : String) (e : Suppression) : Bool :=
  e.script = script && e.pos = pos && e.token = token

/-- Adds an entry in place of one for the same place and token. -/
def insert (s : Suppressions) (e : Suppression) : Suppressions :=
  ⟨e :: s.entries.filter fun old => !isFor e.script e.pos e.token old⟩

/-- The table of the listed entries; later ones win. -/
def ofList (entries : List Suppression) : Suppressions := entries.foldl insert empty

/-- The entry for a token that ends at an offset of a script. -/
def find? (s : Suppressions) (script : String) (pos : Nat) (token : String) : Option Suppression :=
  s.entries.find? (isFor script pos token)

/-- Whether a diagnostic is suppressed. -/
def covers (s : Suppressions) (script : String) (pos : Nat) (token : String) : Bool :=
  (s.find? script pos token).isSome

/-- Whether a script goes on behind the closing brace that ends at an offset. -/
def resumes (s : Suppressions) (script : String) (pos : Nat) : Bool :=
  (s.find? script pos "\x7d").any Suppression.resume

/-- The number of entries. -/
def size (s : Suppressions) : Nat := s.entries.length

end Suppressions

end EntityScript
