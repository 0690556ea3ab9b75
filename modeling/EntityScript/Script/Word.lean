import EntityScript.Script.Basic

/-!
Reading a script word by word. Gaps between words are controls, blanks and parentheses, and remarks
count as gaps. A word that starts with a double quote runs to the next one and may hold gaps. What
is wrong with the text is reported as notes; reading goes on behind it.
-/

namespace EntityScript

/-- Something reported about a place of a script. -/
structure Note where
  pos : Nat
  message : String
  deriving DecidableEq, Repr

/-- A place in a script: its offset and the characters from there on. -/
structure Place where
  pos : Nat
  rest : List Char
  deriving DecidableEq, Repr

/-- What a scan read, where it stopped and what it reported on the way. -/
structure Scan (α : Type) where
  value : α
  stop : Place
  notes : List Note
  deriving Repr

namespace Script

/-- A character between words. -/
def isGap (c : Char) : Bool := c ≤ ' ' || c = '(' || c = ')'

/-- The end of the line. -/
def lineEnd (pos : Nat) : List Char → Place
  | [] => ⟨pos, []⟩
  | c :: cs => if c = '\n' then ⟨pos, c :: cs⟩ else lineEnd (pos + c.utf8Size) cs

/-- The next place that is neither gap nor remark, with the offset of the first newline passed on
the way. Without `lines` a newline stops the scan. -/
def skipGaps (lines remark : Bool) (pos : Nat) : List Char → Place × Option Nat
  | [] => (⟨pos, []⟩, none)
  | c :: cs =>
    if c = '\n' then
      if lines then ((skipGaps lines false (pos + 1) cs).1, some pos) else (⟨pos, c :: cs⟩, none)
    else if remark || isGap c then skipGaps lines remark (pos + c.utf8Size) cs
    else if c = '/' && cs.head? = some '/' then skipGaps lines true (pos + 1) cs
    else (⟨pos, c :: cs⟩, none)

/-- A command word. Quotes and tildes do not belong to it and are reported. -/
def commandWord (pos : Nat) : List Char → Scan (List Char)
  | [] => ⟨[], ⟨pos, []⟩, []⟩
  | c :: cs =>
    if isGap c || (c = '/' && cs.head? = some '/') then ⟨[], ⟨pos, c :: cs⟩, []⟩
    else
      let r := commandWord (pos + c.utf8Size) cs
      if c = '"' || c = '~' then
        { r with notes := ⟨pos, "unexpected '" ++ c.toString ++ "' in command name"⟩ :: r.notes }
      else { r with value := c :: r.value }

/-- A word without quotes around it. A quote inside does not belong to it and is reported. -/
def bareWord (pos : Nat) : List Char → Scan (List Char)
  | [] => ⟨[], ⟨pos, []⟩, []⟩
  | c :: cs =>
    if isGap c || (c = '/' && cs.head? = some '/') then ⟨[], ⟨pos, c :: cs⟩, []⟩
    else
      let r := bareWord (pos + c.utf8Size) cs
      if c = '"' then { r with notes := ⟨pos, "unexpected '\"' in word"⟩ :: r.notes }
      else { r with value := c :: r.value }

/-- The inside of a quoted word and what ended it; the place is that of the ending character. -/
def quotedBody (pos : Nat) : List Char → List Char × Place
  | [] => ([], ⟨pos, []⟩)
  | c :: cs =>
    if c = '"' || c = '\n' then ([], ⟨pos, c :: cs⟩)
    else let (body, stop) := quotedBody (pos + c.utf8Size) cs; (c :: body, stop)

/-- A quoted word behind its opening quote. -/
def quotedWord (pos : Nat) (cs : List Char) : Scan (List Char) :=
  let (body, stop) := quotedBody pos cs
  match stop.rest with
  | '"' :: rest => ⟨body, ⟨stop.pos + 1, rest⟩, []⟩
  | _ => ⟨body, stop, [⟨stop.pos, "missing closing quote"⟩]⟩

/-- The next word, quoted or not. Passing a newline before it is reported. -/
def nextWord (pos : Nat) (cs : List Char) : Scan (List Char) :=
  let (start, crossed) := skipGaps true false pos cs
  let r := match start.rest with
    | '"' :: rest => quotedWord (start.pos + 1) rest
    | rest => bareWord start.pos rest
  { r with notes := crossed.toList.map (⟨·, "unexpected newline"⟩) ++ r.notes }

end Script

end EntityScript
