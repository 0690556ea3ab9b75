import EntityScript.Script.Basic
import EntityScript.Text.LetterCase

/-!
The normal form of script text: one kind of newline, lower case, and blanks in place of block
comments. A block comment keeps its newlines and its length in bytes, so lines and offsets after it
stay where they are. Two slashes keep the rest of their line from opening a block comment.
-/

namespace EntityScript.Script

/-- Every line ending as a single newline. -/
def unifyNewlines : List Char → List Char
  | [] => []
  | '\r' :: '\n' :: cs => '\n' :: unifyNewlines cs
  | '\r' :: cs => '\n' :: unifyNewlines cs
  | c :: cs => c :: unifyNewlines cs

/-- Where the blanking of comments stands: in code, behind two slashes, or in a block comment. -/
inductive CommentZone where
  | code
  | line
  | block
  deriving DecidableEq, Repr

/-- Puts blanks in place of block comments. -/
def blankComments : CommentZone → List Char → List Char
  | _, [] => []
  | .block, c :: cs =>
    match c, cs with
    | '*', '/' :: rest => ' ' :: ' ' :: blankComments .code rest
    | c, cs =>
      (if c = '\n' then ['\n'] else List.replicate c.utf8Size ' ') ++ blankComments .block cs
  | zone, c :: cs =>
    if c = '\n' then c :: blankComments .code cs
    else
      match c, cs with
      | '/', '*' :: rest =>
        if zone = .code then ' ' :: ' ' :: blankComments .block rest
        else '/' :: blankComments zone ('*' :: rest)
      | '/', '/' :: rest => '/' :: blankComments .line ('/' :: rest)
      | c, cs => c :: blankComments zone cs

/-- Blanks take as many bytes as what they stand for. -/
theorem width_blankComments (zone : CommentZone) (text : List Char) :
    Text.width (blankComments zone text) = Text.width text := by
  have hBlank (n : Nat) : Text.width (List.replicate n ' ') = n := by
    induction n with
    | zero => rfl
    | succ n ih => rw [List.replicate_succ, Text.width_cons, ih]; exact Nat.add_comm _ _
  fun_induction blankComments zone text with
  | case1 => rfl
  | case2 rest ih => exact congrArg (fun n => 1 + (1 + n)) ih
  | case3 c cs _ ih =>
      rw [Text.width_append, ih, Text.width_cons]
      split
      · rename_i hNewline
        rw [hNewline]
        rfl
      · rw [hBlank]
  | case4 zone cs _ ih => exact congrArg (1 + ·) ih
  | case5 rest _ _ ih => exact congrArg (fun n => 1 + (1 + n)) ih
  | case6 zone _ rest _ _ ih => exact congrArg (1 + ·) ih
  | case7 zone _ rest _ ih => exact congrArg (1 + ·) ih
  | case8 zone _ c cs _ _ _ ih => exact congrArg (c.utf8Size + ·) ih

/-- The normal form of a text. -/
def normalize (text : String) : List Char :=
  blankComments .code (Text.lowerFrom [] (unifyNewlines text.toList))

/-- A script from text as it was written. -/
def ofRaw (name text : String) : Script := ⟨name, normalize text⟩

/-- A script from text in normal form. -/
def ofNormal (name text : String) : Script := ⟨name, text.toList⟩

end EntityScript.Script
