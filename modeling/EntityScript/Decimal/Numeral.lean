import EntityScript.Text.Blank
import EntityScript.Text.Natural

/-!
Numerals in decimal notation: an optional sign, digits with at most one point among or around them,
and an optional power of ten. A text can begin with a numeral or be one; a whole text may also spell
an infinity or not-a-number.
-/

namespace EntityScript.Decimal

/-- A numeral as it is spelled. -/
structure Numeral where
  negative : Bool
  whole : List Char
  fraction : List Char
  exponent : Int
  deriving DecidableEq, Repr

/-- Splits an optional sign off the front; true for a minus. -/
def splitSign : List Char → Bool × List Char
  | '-' :: cs => (true, cs)
  | '+' :: cs => (false, cs)
  | cs => (false, cs)

/-- Splits a complete power of ten off the front; without digits there is none. -/
def splitExponent (cs : List Char) : Int × List Char :=
  match cs with
  | c :: rest =>
    if c = 'e' || c = 'E' then
      let (negative, digits) := splitSign rest
      let ds := digits.takeWhile Char.isDigit
      if ds.isEmpty then (0, cs)
      else
        let n : Int := Text.digitsValue ds
        (if negative then -n else n, digits.dropWhile Char.isDigit)
    else (0, cs)
  | [] => (0, cs)

/-- Splits the digits after a point off the front, with the point. -/
def splitFraction : List Char → List Char × List Char
  | '.' :: cs => (cs.takeWhile Char.isDigit, cs.dropWhile Char.isDigit)
  | cs => ([], cs)

/-- The longest numeral at the front of the text and what follows it, if there is one. -/
def Numeral.leading? (cs : List Char) : Option (Numeral × List Char) :=
  let (negative, unsigned) := splitSign cs
  let whole := unsigned.takeWhile Char.isDigit
  let (fraction, rest) := splitFraction (unsigned.dropWhile Char.isDigit)
  if whole.isEmpty && fraction.isEmpty then none
  else
    let (exponent, rest) := splitExponent rest
    some (⟨negative, whole, fraction, exponent⟩, rest)

/-- The double nearest to what the numeral denotes, an infinity beyond the largest. -/
def Numeral.toFloat (n : Numeral) : Float :=
  let digits := (n.whole ++ n.fraction).dropWhile (· = '0')
  let scale := n.exponent - n.fraction.length
  let reach := scale + digits.length
  let magnitude : Float :=
    if digits.isEmpty || reach < -400 then 0
    else if 400 < reach then 1 / 0
    else Float.ofScientific (Text.digitsValue digits) (scale < 0) scale.natAbs
  if n.negative then -magnitude else magnitude

/-- The number at the front of a text, after any blanks; zero if there is none. -/
def leadingNumber (s : String) : Float :=
  match Numeral.leading? (Text.trimLeft s.toList) with
  | some (n, _) => n.toFloat
  | none => 0

/-- The ASCII letters in lower case. -/
def lowerLetters (cs : List Char) : List Char := cs.map Char.toLower

/-- The number that a whole text spells. -/
def wholeNumber? (s : String) : Option Float :=
  match Numeral.leading? s.toList with
  | some (n, []) => some n.toFloat
  | some _ => none
  | none =>
    let (negative, word) := splitSign s.toList
    let word := lowerLetters word
    if word = "inf".toList || word = "infinity".toList then
      some (if negative then -(1 / 0) else 1 / 0)
    else if word = "nan".toList then some (0 / 0)
    else none

/-- Whether a whole text spells a number. -/
def isNumber (s : String) : Bool := (wholeNumber? s).isSome

end EntityScript.Decimal
