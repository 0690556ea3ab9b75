import EntityScript.Toml.Number

/-!
TOML keys and values.
-/

namespace EntityScript.Toml

/-- A character of a key without quotes. -/
def isBare (c : Char) : Bool := c.isAlphanum || c = '_' || c = '-'

/-- One part of a key. A part in quotes stands on one line. -/
def simpleKey : Reader String
  | '"' :: cs => shortString '"' cs
  | '\'' :: cs => shortString '\'' cs
  | cs =>
    let key := cs.takeWhile isBare
    if key.isEmpty then none else some (String.ofList key, cs.dropWhile isBare)

/-- The parts of a key with points between them, at most `fuel` parts. Blanks may stand around each
part. -/
def keyParts : Nat → Reader (List String)
  | 0, _ => none
  | fuel + 1, cs => do
    let (k, rest) ← simpleKey (skipSpace cs)
    match skipSpace rest with
    | '.' :: rest => do
      let (ks, rest) ← keyParts fuel rest
      some (k :: ks, rest)
    | rest => some ([k], rest)

/-- A dotted key: the path to a table and the key in it. -/
def key : Reader (List String × String) := fun cs => do
  let (parts, rest) ← keyParts (cs.length + 1) cs
  let last ← parts.getLast?
  some ((parts.dropLast, last), rest)

/-- The text behind a remark, up to the end of its line. -/
def remark? : List Char → Option (List Char)
  | '#' :: cs => some (cs.dropWhile isPrintable)
  | _ => none

/-- The text behind blanks, newlines and remarks. -/
def skipFiller : Nat → List Char → List Char
  | 0, cs => cs
  | fuel + 1, cs =>
    let cs := skipSpace cs
    match newline? cs, remark? cs with
    | some rest, _ => skipFiller fuel rest
    | none, some rest => skipFiller fuel rest
    | none, none => cs

/-- The text behind all blanks, newlines and remarks. -/
def skipAllFiller (cs : List Char) : List Char := skipFiller (cs.length + 1) cs

mutual

/-- A value, with at most `fuel` values before and around each other. -/
def value : Nat → Reader Data
  | 0, _ => none
  | fuel + 1, cs =>
    match cs with
    | '"' :: rest => (string '"' rest).map fun (s, rest) => (.text s, rest)
    | '\'' :: rest => (string '\'' rest).map fun (s, rest) => (.text s, rest)
    | '[' :: rest => (listItems fuel rest).map fun (items, rest) => (.list items, rest)
    | '\x7b' :: rest =>
      match skipSpace rest with
      | '\x7d' :: rest => some (.table .inline [], rest)
      | rest =>
        (inlineEntries fuel [] rest).map fun (entries, rest) => (.table .inline entries, rest)
    | 't' :: 'r' :: 'u' :: 'e' :: rest => some (.bool true, rest)
    | 'f' :: 'a' :: 'l' :: 's' :: 'e' :: rest => some (.bool false, rest)
    | cs => number cs

/-- The items of a list up to its closing bracket; a comma may follow the last. -/
def listItems : Nat → Reader (List Data)
  | 0, _ => none
  | fuel + 1, cs =>
    match skipAllFiller cs with
    | ']' :: rest => some ([], rest)
    | cs => do
      let (item, rest) ← value fuel cs
      match skipAllFiller rest with
      | ']' :: rest => some ([item], rest)
      | ',' :: rest => do
        let (items, rest) ← listItems fuel rest
        some (item :: items, rest)
      | _ => none

/-- The entries of a table in braces up to its closing brace. -/
def inlineEntries : Nat → Entries → Reader Entries
  | 0, _, _ => none
  | fuel + 1, entries, cs => do
    let ((path, key), rest) ← key cs
    match rest with
    | '=' :: rest => do
      let (d, rest) ← value fuel (skipSpace rest)
      let entries ← entries.assign path key d
      match skipSpace rest with
      | '\x7d' :: rest => some (entries, rest)
      | ',' :: rest => inlineEntries fuel entries rest
      | _ => none
    | _ => none

end

end EntityScript.Toml
