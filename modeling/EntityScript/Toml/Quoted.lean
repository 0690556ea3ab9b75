/-!
TOML strings: between double quotes with escapes, or between apostrophes as they stand; either kind on
one line or, with the quote written three times, across lines.
-/

namespace EntityScript.Toml

/-- What reads the front of a text: what it read and the text behind that. -/
abbrev Reader (α : Type) := List Char → Option (α × List Char)

/-- A blank within a line. -/
def isSpace (c : Char) : Bool := c = ' ' || c = '\t'

/-- The text behind the blanks of a line. -/
def skipSpace (cs : List Char) : List Char := cs.dropWhile isSpace

/-- The text behind a newline. -/
def newline? : List Char → Option (List Char)
  | '\n' :: cs => some cs
  | '\r' :: '\n' :: cs => some cs
  | _ => none

/-- A character that may stand for itself in a string or a remark. -/
def isPrintable (c : Char) : Bool := c = '\t' || (' ' ≤ c && c ≠ '\x7f')

/-- The value of a hexadecimal digit. -/
def hexDigit? (c : Char) : Option Nat :=
  if c.isDigit then some (c.toNat - '0'.toNat)
  else if 'a' ≤ c && c ≤ 'f' then some (c.toNat - 'a'.toNat + 10)
  else if 'A' ≤ c && c ≤ 'F' then some (c.toNat - 'A'.toNat + 10)
  else none

/-- The character of a number. -/
def charOf? (n : Nat) : Option Char := if h : n.isValidChar then some (Char.ofNatAux n h) else none

/-- A character by its number in `digits` hexadecimal digits. -/
def numbered (digits : Nat) : Reader Char := fun cs => do
  let ds := cs.take digits
  if ds.length ≠ digits then none
  else
    let n ← ds.foldlM (fun n c => (hexDigit? c).map (16 * n + ·)) 0
    let c ← charOf? n
    some (c, cs.drop digits)

/-- The character that an escape behind its backslash stands for. -/
def escape : Reader Char
  | 'b' :: cs => some ('\x08', cs)
  | 't' :: cs => some ('\t', cs)
  | 'n' :: cs => some ('\n', cs)
  | 'f' :: cs => some ('\x0c', cs)
  | 'r' :: cs => some ('\r', cs)
  | '"' :: cs => some ('"', cs)
  | '\\' :: cs => some ('\\', cs)
  | 'u' :: cs => numbered 4 cs
  | 'U' :: cs => numbered 8 cs
  | _ => none

/-- The text behind blanks and newlines. -/
def skipLines : Nat → List Char → List Char
  | 0, cs => cs
  | fuel + 1, cs =>
    match cs with
    | [] => []
    | c :: rest =>
      if isSpace c then skipLines fuel rest
      else
        match newline? cs with
        | some rest => skipLines fuel rest
        | none => cs

/-- The text behind a line that a backslash breaks, with the blanks that begin the next lines. -/
def brokenLine? (cs : List Char) : Option (List Char) :=
  (newline? (skipSpace cs)).map fun rest => skipLines rest.length rest

/-- The number of times that a text begins with a quote. -/
def quotesAhead (quote : Char) (cs : List Char) : Nat := (cs.takeWhile (· = quote)).length

/-- The rest of a string on one line. -/
def shortBody (quote : Char) (escapes : Bool) : Nat → Reader (List Char)
  | 0, _ => none
  | fuel + 1, cs =>
    match cs with
    | [] => none
    | c :: rest =>
      if c = quote then some ([], rest)
      else if c = '\\' && escapes then do
        let (c, rest) ← escape rest
        let (body, rest) ← shortBody quote escapes fuel rest
        some (c :: body, rest)
      else if isPrintable c then do
        let (body, rest) ← shortBody quote escapes fuel rest
        some (c :: body, rest)
      else none

/-- The rest of a string across lines. Up to two quotes may stand before the three that end it. -/
def longBody (quote : Char) (escapes : Bool) : Nat → Reader (List Char)
  | 0, _ => none
  | fuel + 1, cs =>
    match cs with
    | [] => none
    | c :: rest =>
      if c = quote then
        let n := quotesAhead quote cs
        if n < 3 then do
          let (body, rest) ← longBody quote escapes fuel (cs.drop n)
          some (List.replicate n quote ++ body, rest)
        else
          let inside := min (n - 3) 2
          some (List.replicate inside quote, cs.drop (inside + 3))
      else if c = '\\' && escapes then
        match brokenLine? rest with
        | some rest => longBody quote escapes fuel rest
        | none => do
          let (c, rest) ← escape rest
          let (body, rest) ← longBody quote escapes fuel rest
          some (c :: body, rest)
      else
        match newline? cs with
        | some rest => do
          let (body, rest) ← longBody quote escapes fuel rest
          some ('\n' :: body, rest)
        | none =>
          if isPrintable c then do
            let (body, rest) ← longBody quote escapes fuel rest
            some (c :: body, rest)
          else none

/-- A string behind its first quote, on one line. -/
def shortString (quote : Char) : Reader String := fun cs =>
  (shortBody quote (quote = '"') (cs.length + 1) cs).map fun (body, rest) => (String.ofList body, rest)

/-- A string behind its three quotes. A newline right behind them is left out. -/
def longString (quote : Char) : Reader String := fun cs =>
  let cs := (newline? cs).getD cs
  (longBody quote (quote = '"') (cs.length + 1) cs).map fun (body, rest) => (String.ofList body, rest)

/-- A string behind the quote that it begins with. -/
def string (quote : Char) : Reader String := fun cs =>
  if 2 ≤ quotesAhead quote cs then longString quote (cs.drop 2) else shortString quote cs

end EntityScript.Toml
