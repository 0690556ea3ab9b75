/-!
Words with references. A reference stands between two tildes and may begin with a format
specification and a comma. Everything else stands for itself.
-/

namespace EntityScript

/-- A part of a word. -/
inductive Piece where
  | literal (text : List Char)
  | reference (name : List Char)
  /-- What follows a tilde without a partner. -/
  | unmatched (text : List Char)
  deriving DecidableEq, Repr

namespace Piece

/-- The parts of a word; `inside` tells whether a reference has begun, `part` holds what was read of
the current part. -/
def split (inside : Bool) (part : List Char) : List Char → List Piece
  | [] => [if inside then .unmatched part else .literal part]
  | c :: cs =>
    if c = '~' then (if inside then .reference part else .literal part) :: split (!inside) [] cs
    else split inside (part ++ [c]) cs

/-- The parts of a word in order. -/
def parts (word : String) : List Piece := split false [] word.toList

/-- The format specification of a reference, if it has one, and the name it refers to. -/
def target (reference : List Char) : Option String × String :=
  match reference with
  | '%' :: _ =>
    if reference.contains ',' then
      (some (String.ofList (reference.takeWhile (· ≠ ','))),
        String.ofList ((reference.dropWhile (· ≠ ',')).drop 1))
    else (none, String.ofList reference)
  | _ => (none, String.ofList reference)

end Piece

end EntityScript
