import EntityScript.Text.Utf8

/-!
Script text. Every place in a script is an offset in bytes. Quoted strings end at their line, and a
remark runs from two slashes to the end of its line; braces inside either do not count as blocks.
-/

namespace EntityScript

/-- The text of a script under the name that diagnostics show. -/
structure Script where
  name : String
  text : List Char
  deriving DecidableEq, Repr

/-- Where a scan over characters stands: outside, inside a quoted string, or inside a remark. -/
inductive Zone where
  | plain
  | quoted
  | remark
  deriving DecidableEq, Repr

/-- The zone after a character; `next` is the character that follows it. -/
def Zone.after (z : Zone) (c : Char) (next : Option Char) : Zone :=
  match z with
  | .plain => if c = '"' then .quoted else if c = '/' && next = some '/' then .remark else .plain
  | .quoted => if c = '"' || c = '\n' then .plain else .quoted
  | .remark => if c = '\n' then .plain else .remark

namespace Script

/-- The script without text. -/
def empty : Script := ⟨"", []⟩

/-- The number of bytes. -/
def size (s : Script) : Nat := Text.width s.text

/-- The characters from an offset on, if it lies between two characters or at the end. -/
def from? (s : Script) (pos : Nat) : Option (List Char) := Text.from? s.text pos

/-- The characters from an offset on, none beyond the end. -/
def rest (s : Script) (pos : Nat) : List Char := (s.from? pos).getD []

/-- Walks to `target` and counts lines; `start` is the offset of the line that holds `pos`. -/
def locate (target : Nat) : List Char → (pos line start : Nat) → Nat × Nat
  | [], _, line, start => (line, target - start + 1)
  | c :: cs, pos, line, start =>
    if pos < target then
      if c = '\n' then locate target cs (pos + 1) (line + 1) (pos + 1)
      else locate target cs (pos + c.utf8Size) line start
    else (line, target - start + 1)

/-- The line and the column of an offset, both from one; an offset beyond the end counts as the
end. -/
def lineColumn (s : Script) (pos : Nat) : Nat × Nat := locate (min pos s.size) s.text 0 1 0

/-- The number of blocks open after `left` more bytes, when `depth` are open before them. -/
def depthAfter (left : Nat) (zone : Zone) (depth : Nat) : List Char → Nat
  | [] => depth
  | c :: cs =>
    if left = 0 then depth
    else
      let deeper :=
        if zone = .plain then if c = '\x7b' then depth + 1 else if c = '\x7d' then depth - 1 else depth
        else depth
      depthAfter (left - c.utf8Size) (zone.after c cs.head?) deeper cs

/-- The number of blocks open at an offset. -/
def blockDepth (s : Script) (pos : Nat) : Nat := depthAfter pos .plain 0 s.text

end Script

end EntityScript
