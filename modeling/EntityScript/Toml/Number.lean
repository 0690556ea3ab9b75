import EntityScript.Decimal.Numeral
import EntityScript.Toml.Basic
import EntityScript.Toml.Quoted

/-!
TOML numbers. Digits may be grouped with underscores between them. Integers have 64 bits and may be
written to the bases 16, 8 and 2; a decimal number with a fraction or an exponent is a double.
-/

namespace EntityScript.Toml

/-- A group of digits with single underscores between them; at least one digit. -/
def grouped (isDigit : Char → Bool) : Reader (List Char)
  | [] => none
  | [c] => if isDigit c then some ([c], []) else none
  | c :: d :: cs =>
    if isDigit c then
      if d = '_' then (grouped isDigit cs).map fun (ds, rest) => (c :: ds, rest)
      else if isDigit d then (grouped isDigit (d :: cs)).map fun (ds, rest) => (c :: ds, rest)
      else some ([c], d :: cs)
    else none

/-- The sign in front of a number. -/
def sign : List Char → List Char × List Char
  | '-' :: cs => (['-'], cs)
  | '+' :: cs => ([], cs)
  | cs => ([], cs)

/-- The digits of a whole decimal number; a zero is not followed by others. -/
def decimal : Reader (List Char)
  | '0' :: cs => some (['0'], cs)
  | cs => grouped Char.isDigit cs

/-- The fraction of a number, with its point. -/
def fraction : Reader (List Char)
  | '.' :: cs => (grouped Char.isDigit cs).map fun (ds, rest) => ('.' :: ds, rest)
  | _ => none

/-- The exponent of a number, with its letter and sign. -/
def exponent : Reader (List Char)
  | c :: cs =>
    if c = 'e' || c = 'E' then
      let (sign, cs) := sign cs
      (grouped Char.isDigit cs).map fun (ds, rest) => ('e' :: sign ++ ds, rest)
    else none
  | [] => none

/-- A word that stands for a double. -/
def specialFloat (negative : Bool) : Reader Data
  | 'i' :: 'n' :: 'f' :: cs => some (.float (if negative then -(1.0 / 0.0) else 1.0 / 0.0), cs)
  | 'n' :: 'a' :: 'n' :: cs => some (.float (0.0 / 0.0), cs)
  | _ => none

/-- An integer, if it has 64 bits. -/
def int64? (n : Int) : Option Data :=
  if -(Int.pow 2 63) ≤ n ∧ n < Int.pow 2 63 then some (.int n) else none

/-- An integer to a base of digits. -/
def based (base : Nat) (isDigit : Char → Bool) : Reader Data := fun cs => do
  let (ds, rest) ← grouped isDigit cs
  let n ← ds.foldlM (fun n c => (hexDigit? c).map (base * n + ·)) 0
  let d ← int64? (Int.ofNat n)
  some (d, rest)

/-- Whether a double is infinite and above zero. -/
def isOverflow (x : Float) : Bool := x.isInf && 0 < x

/-- The part of a double behind its whole digits: a fraction, an exponent, or both. -/
def floatTail (cs : List Char) : Option (List Char × List Char) :=
  match fraction cs with
  | some (f, rest) =>
    match exponent rest with
    | some (e, rest) => some (f ++ e, rest)
    | none => some (f, rest)
  | none => exponent cs

/-- A decimal number. -/
def decimalNumber (cs : List Char) : Option (Data × List Char) := do
  let (sign, body) := sign cs
  let (ds, rest) ← decimal body
  match floatTail rest with
  | some (tail, rest) =>
    let x ← Decimal.wholeNumber? (String.ofList (sign ++ ds ++ tail))
    if isOverflow x then none else some (.float x, rest)
  | none =>
    let n : Int := Text.digitsValue ds
    let d ← int64? (if sign.isEmpty then n else -n)
    some (d, rest)

/-- A number. -/
def number : Reader Data
  | '0' :: 'x' :: cs => based 16 (fun c => (hexDigit? c).isSome) cs
  | '0' :: 'o' :: cs => based 8 (fun c => '0' ≤ c && c ≤ '7') cs
  | '0' :: 'b' :: cs => based 2 (fun c => c = '0' || c = '1') cs
  | cs =>
    let (sign, body) := sign cs
    match specialFloat (!sign.isEmpty) body with
    | some r => some r
    | none => decimalNumber cs

end EntityScript.Toml
