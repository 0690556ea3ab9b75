import EntityScript.Decimal.Rounded

/-!
Spans of game time in whole nanoseconds. A span holds fewer than `2 ^ 64` seconds; a sum that does
not fit has no value.
-/

namespace EntityScript

/-- A span of time. -/
structure Duration where
  nanos : Nat
  deriving DecidableEq, Repr, Inhabited

namespace Duration

/-- The nanoseconds of a second. -/
def second : Nat := 1000000000

/-- No time at all. -/
def zero : Duration := ⟨0⟩

/-- The first count of nanoseconds that does not fit. -/
def limit : Nat := Nat.pow 2 64 * second

/-- The sum, if it fits. -/
def add? (a b : Duration) : Option Duration :=
  if a.nanos + b.nanos < limit then some ⟨a.nanos + b.nanos⟩ else none

/-- The time by which `a` exceeds `b`, none if it does not. -/
def since (a b : Duration) : Duration := ⟨a.nanos - b.nanos⟩

/-- Whole milliseconds. -/
def millis (d : Duration) : Nat := d.nanos / 1000000

/-- Whole seconds. -/
def seconds (d : Duration) : Nat := d.nanos / second

/-- A span of whole milliseconds. -/
def ofMillis (n : Nat) : Duration := ⟨n * 1000000⟩

/-- The span nearest to a number of seconds, a half going to the even nanosecond; no time if the
number is no span. -/
def ofSeconds (x : Float) : Duration :=
  if x.isNaN || x.isInf || x < 0 then zero
  else
    let (num, den) := (Decimal.Binary.ofFloat x).scaled 9
    let nanos := Decimal.roundDiv num den
    if nanos < limit then ⟨nanos⟩ else zero

/-- A count of units and its fraction, `digits` places long, without trailing zeros. -/
def showUnits (whole fraction digits : Nat) : String :=
  let ds := ((Decimal.paddedDigits digits fraction).reverse.dropWhile (· = '0')).reverse
  toString whole ++ (if ds.isEmpty then "" else "." ++ String.ofList ds)

/-- The span in the largest unit of which it holds at least one. -/
def shown (d : Duration) : String :=
  if second ≤ d.nanos then showUnits (d.nanos / second) (d.nanos % second) 9 ++ "s"
  else if 1000000 ≤ d.nanos then showUnits (d.nanos / 1000000) (d.nanos % 1000000) 6 ++ "ms"
  else if 1000 ≤ d.nanos then showUnits (d.nanos / 1000) (d.nanos % 1000) 3 ++ "µs"
  else toString d.nanos ++ "ns"

end Duration

end EntityScript
