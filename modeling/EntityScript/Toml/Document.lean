import EntityScript.Toml.Value

/-!
TOML documents. A document is read line by line: an entry goes into the table of the last header, and
a header names the table that the next entries go into.
-/

namespace EntityScript.Toml

/-- A document while it is read: its entries and the path of the last header. -/
structure Draft where
  entries : Entries
  path : List String

namespace Draft

/-- Adds an entry to the table of the last header. -/
def assign (d : Draft) (path : List String) (key : String) (v : Data) : Option Draft :=
  (Entries.within false (fun _ entries => entries.assign path key v) d.path .header d.entries).map
    fun entries => { d with entries }

/-- Begins the table of a header. -/
def beginTable (d : Draft) (path : List String) (key : String) : Option Draft :=
  (d.entries.beginTable path key).map fun entries => ⟨entries, path ++ [key]⟩

/-- Begins the next table of a repeated header. -/
def beginRow (d : Draft) (path : List String) (key : String) : Option Draft :=
  (d.entries.beginRow path key).map fun entries => ⟨entries, path ++ [key]⟩

end Draft

/-- The text behind the end of a line, which a remark may stand in front of. -/
def lineEnd? (cs : List Char) : Option (List Char) :=
  let cs := skipSpace cs
  match (remark? cs).getD cs with
  | [] => some []
  | cs => newline? cs

/-- Reads one statement: a header or an entry. -/
def statement (d : Draft) : Reader Draft
  | '[' :: '[' :: cs => do
    let ((path, key), rest) ← key cs
    match rest with
    | ']' :: ']' :: rest =>
      let d ← d.beginRow path key
      some (d, rest)
    | _ => none
  | '[' :: cs => do
    let ((path, key), rest) ← key cs
    match rest with
    | ']' :: rest =>
      let d ← d.beginTable path key
      some (d, rest)
    | _ => none
  | cs => do
    let ((path, key), rest) ← key cs
    match rest with
    | '=' :: rest =>
      let (v, rest) ← value (rest.length + 1) (skipSpace rest)
      let d ← d.assign path key v
      some (d, rest)
    | _ => none

/-- Reads at most `fuel` lines. -/
def lines : Nat → Draft → List Char → Option Entries
  | 0, _, _ => none
  | fuel + 1, d, cs =>
    match skipSpace cs with
    | [] => some d.entries
    | c :: cs =>
      if c = '\n' || c = '\r' || c = '#' then (lineEnd? (c :: cs)).bind (lines fuel d)
      else do
        let (d, rest) ← statement d (c :: cs)
        let rest ← lineEnd? rest
        lines fuel d rest

/-- The entries of a document. -/
def read? (text : String) : Option Entries :=
  let cs := match text.toList with
    | '\uFEFF' :: cs => cs
    | cs => cs
  lines (cs.length + 1) ⟨[], []⟩ cs

end EntityScript.Toml
