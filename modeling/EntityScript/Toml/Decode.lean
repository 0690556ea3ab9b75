import EntityScript.Toml.Document

/-!
What a program expects of TOML data. Nothing comes of data of another kind. A record is written as a
table or as a list of its fields in order, and may hold fields that nobody asks for.
-/

namespace EntityScript.Toml

namespace Data

/-- The text. -/
def text? : Data → Option String
  | .text s => some s
  | _ => none

/-- The truth value. -/
def bool? : Data → Option Bool
  | .bool b => some b
  | _ => none

/-- The number, if it lies from zero up to a bound. -/
def natBelow? (bound : Nat) : Data → Option Nat
  | .int n => if 0 ≤ n ∧ n < bound then some n.toNat else none
  | _ => none

/-- The number as a double. -/
def float? : Data → Option Float
  | .float x => some x
  | .int n => some (Float.ofInt n)
  | _ => none

/-- The entries of a table. -/
def entries? : Data → Option Entries
  | .table _ entries => some entries
  | _ => none

/-- The items of a list, or the tables of a repeated header. -/
def items? : Data → Option (List Data)
  | .list items => some items
  | .rows tables => some (tables.map (.table .header))
  | _ => none

/-- The fields of a record whose names are given in order. -/
def fields? (names : List String) : Data → Option Entries
  | .table _ entries => some entries
  | d => d.items?.map names.zip

/-- A list, each item of which is decoded. -/
def listOf? {α : Type} (decode : Data → Option α) (d : Data) : Option (List α) :=
  d.items?.bind (·.mapM decode)

end Data

namespace Entries

/-- A field that has to be there. -/
def required? {α : Type} (entries : Entries) (name : String) (decode : Data → Option α) :
    Option α :=
  (entries.lookup name).bind decode

/-- A field that may be left out. -/
def optional? {α : Type} (entries : Entries) (name : String) (decode : Data → Option α) :
    Option (Option α) :=
  match entries.lookup name with
  | none => some none
  | some d => (decode d).map some

/-- A field with a value that counts when it is left out. -/
def orDefault? {α : Type} (entries : Entries) (name : String) (decode : Data → Option α)
    (default : α) : Option α :=
  (entries.optional? name decode).map (·.getD default)

end Entries

end EntityScript.Toml
