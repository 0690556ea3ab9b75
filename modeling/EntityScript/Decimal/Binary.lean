/-!
The exact value of a double: a natural number times a power of two. Remainders and tests for
integers are computed on that value, so they involve no rounding.
-/

namespace EntityScript.Decimal

/-- A finite magnitude, `mant * 2 ^ exp`. -/
structure Binary where
  mant : Nat
  exp : Int
  /-- The gap to the magnitude below is half the gap to the one above. -/
  narrowBelow : Bool
  deriving DecidableEq, Repr

/-- The sign bit. -/
def isNegative (x : Float) : Bool := x.toBits >>> 63 == 1

/-- The magnitude of a finite double. -/
def Binary.ofFloat (x : Float) : Binary :=
  let bits := x.toBits
  let e := ((bits >>> 52) &&& 0x7FF).toNat
  let f := (bits &&& 0xFFFFFFFFFFFFF).toNat
  if e = 0 then ⟨f, -1074, false⟩ else ⟨Nat.pow 2 52 + f, (e : Int) - 1075, f = 0 && e > 1⟩

/-- The numerator and denominator of the magnitude times `10 ^ k`. -/
def Binary.scaled (b : Binary) (k : Int) : Nat × Nat :=
  (b.mant * Nat.pow 2 b.exp.toNat * Nat.pow 10 k.toNat,
    Nat.pow 2 (-b.exp).toNat * Nat.pow 10 (-k).toNat)

/-- A finite double without a fraction. -/
def isIntegral (x : Float) : Bool :=
  let b := Binary.ofFloat x
  x.isFinite && b.mant % Nat.pow 2 (-b.exp).toNat = 0

/-- The double nearest to an integer, of two equally near the one with the even mantissa. -/
def ofInt64 (n : Int64) : Float := .ofModel (.ofInt64 n)

/-- The integer part of a double. What is too large becomes the bound, and what is no number zero. -/
def truncate (x : Float) : Int64 := x.toModel.toInt64

/-- The double nearest to `mant * 2 ^ exp`. -/
def ofScaled (mant : Nat) (exp : Int) : Float :=
  if mant = 0 then 0 else .ofModel (.pack (.round .binary64 .positive mant exp))

/-- The remainder of `a` by `b`, with the sign of `a`. -/
def remainder (a b : Float) : Float :=
  if a.isNaN || a.isInf || b.isNaN || b == 0 then 0 / 0
  else if b.isInf then a
  else
    let m := Binary.ofFloat a
    let n := Binary.ofFloat b
    let e := min m.exp n.exp
    let r := (m.mant * Nat.pow 2 (m.exp - e).toNat) % (n.mant * Nat.pow 2 (n.exp - e).toNat)
    let magnitude := ofScaled r e
    if isNegative a then -magnitude else magnitude

end EntityScript.Decimal
