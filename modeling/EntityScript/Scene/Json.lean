import EntityScript.Decimal.Shortest

/-!
JSON texts over several lines. Each level of nesting is indented by two blanks.
-/

namespace EntityScript.Scene

/-- What a report holds. -/
inductive Json where
  | int (n : Int)
  | float (x : Float)
  | text (s : String)
  | object (fields : List (String × Json))

namespace Json

/-- One character between double quotes. -/
def escapeChar (c : Char) : List Char :=
  if c = '"' then ['\\', '"']
  else if c = '\\' then ['\\', '\\']
  else if c = '\x08' then ['\\', 'b']
  else if c = '\x0c' then ['\\', 'f']
  else if c = '\n' then ['\\', 'n']
  else if c = '\r' then ['\\', 'r']
  else if c = '\t' then ['\\', 't']
  else if c < ' ' then
    let ds := Nat.toDigits 16 c.toNat
    ['\\', 'u'] ++ List.replicate (4 - ds.length) '0' ++ ds
  else [c]

/-- A text in double quotes. -/
def quoted (s : String) : String := String.ofList ('"' :: (s.toList.flatMap escapeChar ++ ['"']))

/-- Digits times a power of ten: with a point from `10 ^ -5` on and below `10 ^ 16`, otherwise with an
exponent. -/
def decimal (digits : Nat) (exp : Int) : List Char :=
  let ds := Nat.toDigits 10 digits
  let point := ds.length + exp
  if digits = 0 then ['0', '.', '0']
  else if -5 < point && point ≤ 16 then
    if 0 ≤ exp then Decimal.plain digits exp ++ ['.', '0'] else Decimal.plain digits exp
  else
    let fraction := ds.drop 1
    ds.take 1 ++ (if fraction.isEmpty then [] else '.' :: fraction) ++
      'e' :: (toString (point - 1)).toList

/-- A double with the fewest digits that identify it; there is none for what is no number. -/
def number (x : Float) : String :=
  if x.isNaN || x.isInf then "null"
  else
    String.ofList <| Decimal.signed x fun b =>
      let (digits, exp) := b.shortest .even
      decimal digits exp

/-- The start of a line. -/
def indent (depth : Nat) : String := String.ofList ('\n' :: List.replicate (2 * depth) ' ')

mutual

/-- A value at a depth of nesting. -/
def pretty (depth : Nat) : Json → String
  | .int n => toString n
  | .float x => number x
  | .text s => quoted s
  | .object [] => "\x7b\x7d"
  | .object (f :: fs) =>
    "\x7b" ++ ",".intercalate (prettyFields (depth + 1) (f :: fs)) ++ indent depth ++ "\x7d"

/-- The fields of an object, each on a line of its own. -/
def prettyFields (depth : Nat) : List (String × Json) → List String
  | [] => []
  | (name, v) :: rest =>
    (indent depth ++ quoted name ++ ": " ++ pretty depth v) :: prettyFields depth rest

end

end Json

end EntityScript.Scene
