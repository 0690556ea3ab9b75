/-!
TOML data. Tables remember how they came about, because that decides what may still be added to
them: a table behind a header can be written once, a table that dotted keys made grows by dotted keys
only, and a table in braces is complete.
-/

namespace EntityScript.Toml

/-- How a table came about. -/
inductive Origin where
  /-- Written between braces. -/
  | inline
  /-- On the way to the table of a header. -/
  | implied
  /-- On the way of a dotted key. -/
  | dotted
  /-- Behind a header of its own, or at the top. -/
  | header
  deriving DecidableEq, Repr

/-- TOML data. -/
inductive Data where
  | text (s : String)
  | int (n : Int)
  | float (x : Float)
  | bool (b : Bool)
  | list (items : List Data)
  | table (origin : Origin) (entries : List (String × Data))
  /-- The tables of one repeated header. -/
  | rows (tables : List (List (String × Data)))

/-- The entries of a table, in the order in which they were written. -/
abbrev Entries := List (String × Data)

namespace Entries

/-- Writes an entry in place of one of the same key. -/
def put (key : String) (d : Data) : Entries → Entries
  | [] => [(key, d)]
  | (k, old) :: rest => if k = key then (key, d) :: rest else (k, old) :: put key d rest

/-- Changes the table at the end of a path. Tables that are missing are made, and of repeated tables
the last one counts. A dotted path may not lead through the table of a header. -/
def within (dotted : Bool) (f : Origin → Entries → Option Entries) :
    List String → Origin → Entries → Option Entries
  | [], origin, entries => f origin entries
  | k :: ks, _, entries =>
    match entries.lookup k with
    | none =>
      let origin := if dotted then Origin.dotted else .implied
      (within dotted f ks origin []).map fun inner => entries.put k (.table origin inner)
    | some (.table origin inner) =>
      if origin = .inline || (dotted && origin = .header) then none
      else (within dotted f ks origin inner).map fun inner => entries.put k (.table origin inner)
    | some (.rows tables) =>
      match tables.reverse with
      | [] => none
      | last :: earlier =>
        (within dotted f ks .header last).map fun last =>
          entries.put k (.rows (last :: earlier).reverse)
    | some _ => none

/-- Adds an entry under a dotted key; a key is written once. -/
def assign (path : List String) (key : String) (d : Data) (entries : Entries) : Option Entries :=
  within true (fun origin entries =>
    if (path.isEmpty || origin = .dotted) && (entries.lookup key).isNone then
      some (entries.put key d)
    else none) path .header entries

/-- Begins the table of a header. -/
def beginTable (path : List String) (key : String) (entries : Entries) : Option Entries :=
  within false (fun _ entries =>
    match entries.lookup key with
    | none => some (entries.put key (.table .header []))
    | some (.table .implied inner) => some (entries.put key (.table .header inner))
    | some _ => none) path .header entries

/-- Begins the next table of a repeated header. -/
def beginRow (path : List String) (key : String) (entries : Entries) : Option Entries :=
  within false (fun _ entries =>
    match entries.lookup key with
    | none => some (entries.put key (.rows [[]]))
    | some (.rows tables) => some (entries.put key (.rows (tables ++ [[]])))
    | some _ => none) path .header entries

end Entries

end EntityScript.Toml
