import EntityScript.Text.EscapeTable
import EntityScript.Text.LetterCase

/-!
Texts in double quotes and lists of them, as log lines show them. Quotes, backslashes and the usual
controls have short escapes; a character that cannot be shown is written by its number.
-/

namespace EntityScript.Text

/-- One character between double quotes. -/
def escapeChar (c : Char) : List Char :=
  if c = '\x00' then ['\\', '0']
  else if c = '\t' then ['\\', 't']
  else if c = '\r' then ['\\', 'r']
  else if c = '\n' then ['\\', 'n']
  else if c = '"' then ['\\', '"']
  else if c = '\\' then ['\\', '\\']
  else if inRanges c.toNat numberedRanges then
    ['\\', 'u', '\x7b'] ++ Nat.toDigits 16 c.toNat ++ ['\x7d']
  else [c]

/-- A text in double quotes. -/
def quoted (s : String) : String := String.ofList ('"' :: (s.toList.flatMap escapeChar ++ ['"']))

/-- A bracketed list of texts in double quotes. -/
def quotedList (xs : List String) : String := "[" ++ ", ".intercalate (xs.map quoted) ++ "]"

end EntityScript.Text
