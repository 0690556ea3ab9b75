import EntityScript.Text.Blank

/-!
Event parameters: texts in order. They are written with blanks between them; double quotes make
blanks part of a parameter and make an empty parameter visible.
-/

namespace EntityScript

/-- The parameters of an event in order. -/
structure Parameters where
  values : List String
  deriving DecidableEq, Repr

namespace Parameters

/-- No parameters. -/
def none : Parameters := ⟨[]⟩

/-- Reads the parameters of a text. `quoted` tells whether the place is between quotes, `word` holds
the characters of the parameter that has begun. -/
def scan (quoted : Bool) (word : Option (List Char)) : List Char → List (List Char)
  | [] => word.toList
  | c :: cs =>
    if c = '"' then scan (!quoted) (some (word.getD [])) cs
    else if Text.isBlank c && !quoted then word.toList ++ scan quoted .none cs
    else scan quoted (some (word.getD [] ++ [c])) cs

/-- The parameters that a text spells. -/
def parse (s : String) : Parameters := ⟨(scan false .none s.toList).map String.ofList⟩

/-- One parameter as it is written: in quotes if it is empty or holds a blank. -/
def showValue (s : String) : String :=
  if s.isEmpty || s.toList.any Text.isBlank then "\"" ++ s ++ "\"" else s

/-- The parameters as they are written. -/
def shown (p : Parameters) : String := " ".intercalate (p.values.map showValue)

/-- The parameter at a place, counted from zero. -/
def get? (p : Parameters) (i : Nat) : Option String := p.values[i]?

end Parameters

end EntityScript
