/-!
Natural numbers in decimal digits, as scripts write counts and indices.
-/

namespace EntityScript.Text

/-- The natural number that decimal digits spell. -/
def digitsValue (ds : List Char) : Nat := ds.foldl (fun n c => 10 * n + (c.toNat - '0'.toNat)) 0

/-- The natural number below `2 ^ 64` that a whole text spells; a plus may stand before the
digits. -/
def natural? (cs : List Char) : Option Nat :=
  let digits := match cs with
    | '+' :: ds => ds
    | ds => ds
  if digits.isEmpty || !digits.all Char.isDigit then none
  else if digitsValue digits < Nat.pow 2 64 then some (digitsValue digits)
  else none

end EntityScript.Text
