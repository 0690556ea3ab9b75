import EntityScript.Decimal.Rounded

/-!
The fewest decimal digits that identify a double. A decimal identifies it if it lies among the
reals that round to it; of two such decimals of the least length the nearer is taken.
-/

namespace EntityScript.Decimal

/-- What a value exactly halfway between two decimals of the least length becomes. -/
inductive Tie where
  | up
  | even
  deriving DecidableEq, Repr

/-- `digits * 10 ^ exp` lies among the reals that round to the magnitude; the ends of that interval
count when the last bit is even. -/
def Binary.identifiedBy (b : Binary) (digits : Nat) (exp : Int) : Bool :=
  let d := digits * Nat.pow 10 exp.toNat * Nat.pow 2 (2 - b.exp).toNat
  let unit := Nat.pow 10 (-exp).toNat * Nat.pow 2 (b.exp - 2).toNat
  let low := (if b.narrowBelow then 4 * b.mant - 1 else 4 * b.mant - 2) * unit
  let high := (4 * b.mant + 2) * unit
  if b.mant % 2 = 0 then low ≤ d && d ≤ high else low < d && d < high

/-- The identifying decimal among the two that surround the magnitude on the grid `10 ^ exp`. -/
def Binary.onGrid (b : Binary) (tie : Tie) (exp : Int) : Option (Nat × Int) :=
  let (num, den) := b.scaled (-exp)
  let d := num / den
  let lower := b.identifiedBy d exp
  let upper := b.identifiedBy (d + 1) exp
  let twice := 2 * (num % den)
  let goUp := den < twice || (twice = den && (tie = .up || d % 2 = 1))
  if lower && upper then some (if goUp then d + 1 else d, exp)
  else if lower then some (d, exp)
  else if upper then some (d + 1, exp)
  else none

/-- Moves the trailing zeros of the digits into the exponent, at most `fuel` of them. -/
def dropZeros : Nat → Nat → Int → Nat × Int
  | 0, digits, exp => (digits, exp)
  | fuel + 1, digits, exp =>
    if digits ≠ 0 && digits % 10 = 0 then dropZeros fuel (digits / 10) (exp + 1)
    else (digits, exp)

/-- The identifying decimal with the fewest digits, as digits and exponent. Seventeen digits
identify every double; were they not enough, the exact value would be returned. -/
def Binary.shortest (b : Binary) (tie : Tie) : Nat × Int :=
  if b.mant = 0 then (0, 0)
  else
    let k := b.decade
    match (List.range 17).findSome? fun n => b.onGrid tie (k - (n + 1 : Nat)) with
    | some (digits, exp) => dropZeros 20 digits exp
    | none => (b.mant * Nat.pow 2 b.exp.toNat * Nat.pow 5 (-b.exp).toNat, min b.exp 0)

/-- `digits * 10 ^ exp` written out without an exponent. -/
def plain (digits : Nat) (exp : Int) : List Char :=
  if 0 ≤ exp then Nat.toDigits 10 digits ++ (if digits = 0 then [] else List.replicate exp.toNat '0')
  else
    let places := (-exp).toNat
    let ds := paddedDigits (places + 1) digits
    ds.take (ds.length - places) ++ '.' :: ds.drop (ds.length - places)

/-- A double with the fewest digits and no exponent. -/
def shortest (x : Float) : List Char :=
  signed x fun b => let (digits, exp) := b.shortest .up; plain digits exp

end EntityScript.Decimal
