import EntityScript.Value

/-!
Format specifications of interpolated values. A specification is a percent sign, any of the flags
minus, plus, space, zero and number sign, a least width, a precision after a point, length letters
without a meaning, and one conversion letter. What is no specification formats nothing: the value is
then written as its plain text.
-/

namespace EntityScript

/-- A format specification. -/
structure Format where
  left : Bool := false
  plus : Bool := false
  space : Bool := false
  zero : Bool := false
  alternate : Bool := false
  width : Nat := 0
  precision : Option Nat := none
  conversion : Char
  deriving DecidableEq, Repr

namespace Format

/-- Whether a character is a flag. -/
def isFlag (c : Char) : Bool := c = '-' || c = '+' || c = ' ' || c = '0' || c = '#'

/-- Whether a character is a length letter. -/
def isLength (c : Char) : Bool :=
  c = 'l' || c = 'h' || c = 'z' || c = 'j' || c = 't' || c = 'L'

/-- Reads a specification; nothing may follow the conversion letter. -/
def parse? : List Char → Option Format
  | '%' :: cs =>
    let flags := cs.takeWhile isFlag
    let cs := cs.dropWhile isFlag
    let width := Text.digitsValue (cs.takeWhile Char.isDigit)
    let cs := cs.dropWhile Char.isDigit
    let (precision, cs) :=
      match cs with
      | '.' :: ds => (some (Text.digitsValue (ds.takeWhile Char.isDigit)), ds.dropWhile Char.isDigit)
      | _ => (none, cs)
    match cs.dropWhile isLength with
    | [conversion] =>
      some {
        left := flags.contains '-', plus := flags.contains '+', space := flags.contains ' '
        zero := flags.contains '0', alternate := flags.contains '#'
        width, precision, conversion }
    | _ => none
  | _ => none

/-- Separates the sign that a number shows from its digits. -/
def splitSign (f : Format) : List Char → List Char × List Char
  | '-' :: cs => (['-'], cs)
  | cs => (if f.plus then ['+'] else if f.space then [' '] else [], cs)

/-- Brings a sign and a body to the least width: blanks after them, zeros between them or blanks
before them. Only numbers are filled with zeros. -/
def pad (f : Format) (numeric : Bool) (sign body : List Char) : List Char :=
  let fill := f.width - (sign.length + body.length)
  if f.left then sign ++ body ++ List.replicate fill ' '
  else if f.zero && numeric then sign ++ List.replicate fill '0' ++ body
  else List.replicate fill ' ' ++ sign ++ body

/-- The digits of the 64-bit pattern of an integer in a base, behind a mark in the alternate form
unless the integer is zero. -/
def radix (f : Format) (base : Nat) (capital : Bool) (mark : List Char) (n : Int64) :
    List Char × List Char :=
  let digits := Nat.toDigits base n.toUInt64.toNat
  (if f.alternate && n ≠ 0 then mark else [], if capital then digits.map Char.toUpper else digits)

/-- A mantissa and a decimal exponent of at least two digits with its sign. -/
def withExponent (mark : Char) (digits : List Char) (exponent : Int) : List Char :=
  let mantissa := match digits with
    | d :: e :: ds => d :: '.' :: e :: ds
    | ds => ds
  mantissa ++ mark :: (if exponent < 0 then '-' else '+') ::
    Decimal.paddedDigits 2 exponent.natAbs

/-- A number with one digit before the point, `places` after it and an exponent. -/
def scientific (mark : Char) (places : Nat) (x : Float) : List Char :=
  Decimal.signed x fun b =>
    let (digits, exponent) := b.significant places
    withExponent mark digits exponent

/-- Drops the zeros at the end of a fraction, and the point if nothing is left behind it. An
exponent stays. -/
def dropFractionZeros (cs : List Char) : List Char :=
  let isMark (c : Char) : Bool := c = 'e' || c = 'E'
  let number := cs.takeWhile (!isMark ·)
  let kept :=
    if number.contains '.' then
      let body := (number.reverse.dropWhile (· = '0')).dropWhile (· = '.')
      body.reverse
    else number
  kept ++ cs.dropWhile (!isMark ·)

/-- A number with a given count of significant digits, in the notation that suits its size. -/
def general (f : Format) (mark : Char) (x : Float) : List Char :=
  let precision := max 1 (f.precision.getD 6)
  if x == 0 then
    if f.alternate then Decimal.fixed (precision - 1) 0 else ['0']
  else
    let exponent : Int :=
      if x.isFinite then ((Decimal.Binary.ofFloat x).significant (precision - 1)).2 else 0
    let text :=
      if exponent < -4 || (precision : Int) ≤ exponent then scientific mark (precision - 1) x
      else Decimal.fixed ((precision : Int) - 1 - exponent).toNat x
    if f.alternate then text else dropFractionZeros text

/-- Writes a value by a specification that was read. -/
def render (f : Format) (v : Value) : List Char :=
  let number (parts : List Char × List Char) := f.pad true parts.1 parts.2
  match f.conversion with
  | 'd' | 'i' | 'u' => number (f.splitSign (toString v.asInt).toList)
  | 'x' => number (f.radix 16 false ['0', 'x'] v.asInt)
  | 'X' => number (f.radix 16 true ['0', 'X'] v.asInt)
  | 'o' => number (f.radix 8 false ['0'] v.asInt)
  | 'f' | 'F' => number (f.splitSign (Decimal.fixed (f.precision.getD 6) v.asFloat))
  | 'e' => number (f.splitSign (scientific 'e' (f.precision.getD 6) v.asFloat))
  | 'E' => number (f.splitSign (scientific 'E' (f.precision.getD 6) v.asFloat))
  | 'g' => number (f.splitSign (f.general 'e' v.asFloat))
  | 'G' => number (f.splitSign (f.general 'E' v.asFloat))
  | 's' =>
    let text := v.asText.toList
    f.pad false [] (match f.precision with | some n => text.take n | none => text)
  | _ => v.asText.toList

end Format

/-- Writes a value by a specification; what is no specification has no effect. -/
def Value.formatted (spec : String) (v : Value) : String :=
  match Format.parse? spec.toList with
  | some f => String.ofList (f.render v)
  | none => v.asText

end EntityScript
