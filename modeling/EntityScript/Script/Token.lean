import EntityScript.Script.Word

/-!
The tokens of a condition. They end with the line or with the brace that opens the body. Blanks and
remarks between them are passed over; inside quotes nothing is special but the closing quote.
-/

namespace EntityScript

/-- A token of a condition. -/
inductive Token where
  | opening
  | closing
  | separator
  | word (w : String)
  | stop
  deriving DecidableEq, Repr

/-- A token, the place behind it, and whether it is a quoted word without a closing quote. -/
structure Lexeme where
  token : Token
  next : Place
  unclosed : Bool
  deriving Repr

namespace Script

/-- The next place on the line that is neither blank nor inside a remark. -/
def skipBlanks (remark : Bool) (pos : Nat) : List Char → Place
  | [] => ⟨pos, []⟩
  | c :: cs =>
    if remark then
      if c = '\n' then ⟨pos, c :: cs⟩ else skipBlanks true (pos + c.utf8Size) cs
    else if c = ' ' || c = '\t' || c = '\r' then skipBlanks false (pos + 1) cs
    else if c = '/' && cs.head? = some '/' then skipBlanks true (pos + 1) cs
    else ⟨pos, c :: cs⟩

/-- A character that belongs to an unquoted word of a condition. -/
def isWordChar (c : Char) : Bool := ' ' < c && c ≠ '(' && c ≠ ')' && c ≠ ',' && c ≠ '\x7b'

/-- The token at a place. -/
def nextToken (p : Place) : Lexeme :=
  let start := skipBlanks false p.pos p.rest
  match start.rest with
  | [] => ⟨.stop, start, false⟩
  | c :: cs =>
    let behind : Place := ⟨start.pos + 1, cs⟩
    if c = '\n' || c = '\x7b' then ⟨.stop, start, false⟩
    else if c = '(' then ⟨.opening, behind, false⟩
    else if c = ')' then ⟨.closing, behind, false⟩
    else if c = ',' then ⟨.separator, behind, false⟩
    else if c = '"' then
      let (body, stop) := quotedBody (start.pos + 1) cs
      match stop.rest with
      | '"' :: rest => ⟨.word (String.ofList body), ⟨stop.pos + 1, rest⟩, false⟩
      | _ => ⟨.word (String.ofList body), stop, true⟩
    else
      let w := (c :: cs).takeWhile isWordChar
      let next : Place := ⟨start.pos + Text.width w, (c :: cs).dropWhile isWordChar⟩
      if w = ['&', '&'] || w = ['|', '|'] then ⟨.separator, next, false⟩
      else ⟨.word (String.ofList w), next, false⟩

end Script

end EntityScript
