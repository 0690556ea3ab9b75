import EntityScript.Decimal.Binary

/-!
Decimals of a prescribed precision. The exact value is rounded once, to the nearest decimal of that
precision; a value halfway between two decimals goes to the one whose last digit is even.
-/

namespace EntityScript.Decimal

/-- The integer nearest to `num / den`, the even one if two are equally near. -/
def roundDiv (num den : Nat) : Nat :=
  let q := num / den
  let r := num % den
  if 2 * r < den then q else if den < 2 * r then q + 1 else if q % 2 = 0 then q else q + 1

/-- The least `k` with a magnitude below `10 ^ k`. The magnitude is not zero. -/
def Binary.decade (b : Binary) : Int :=
  let k := (((b.mant.log2 : Int) + b.exp) * 1233) / 4096
  let below (k : Int) : Bool := let (num, den) := b.scaled (-k); num < den
  if below k then k else if below (k + 1) then k + 1 else k + 2

/-- The decimal digits of `n`, padded with zeros on the left to at least `least`. -/
def paddedDigits (least n : Nat) : List Char :=
  let ds := Nat.toDigits 10 n
  List.replicate (least - ds.length) '0' ++ ds

/-- The magnitude written with exactly `places` digits after the point. -/
def Binary.fixed (b : Binary) (places : Nat) : List Char :=
  let (num, den) := b.scaled places
  let ds := paddedDigits (places + 1) (roundDiv num den)
  let whole := ds.take (ds.length - places)
  if places = 0 then whole else whole ++ '.' :: ds.drop (ds.length - places)

/-- The magnitude as `places + 1` digits, the first of them not zero, and the decimal exponent of
the first. Zero has exponent zero. -/
def Binary.significant (b : Binary) (places : Nat) : List Char × Int :=
  if b.mant = 0 then (List.replicate (places + 1) '0', 0)
  else
    let k := b.decade
    let (num, den) := b.scaled ((places + 1 : Nat) - k)
    let n := roundDiv num den
    if n = Nat.pow 10 (places + 1) then (Nat.toDigits 10 (Nat.pow 10 places), k)
    else (paddedDigits (places + 1) n, k - 1)

/-- Writes `finite` of the magnitude after the sign; infinities and not-a-number have fixed texts. -/
def signed (x : Float) (finite : Binary → List Char) : List Char :=
  if x.isNaN then "NaN".toList
  else
    let body := if x.isInf then "inf".toList else finite (Binary.ofFloat x)
    if isNegative x then '-' :: body else body

/-- A double with exactly `places` digits after the point. -/
def fixed (places : Nat) (x : Float) : List Char := signed x (·.fixed places)

end EntityScript.Decimal
