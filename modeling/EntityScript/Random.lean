/-!
The random numbers of a session. They come from a stream of 32-bit words that a seed determines: a
key is drawn from the seed, and block `n` of the stream is the twelve-round ChaCha permutation of
the constants, the key and `n`. The state is the seed and the number of words already used.
-/

namespace EntityScript

/-- A place in the stream of a seed. -/
structure Generator where
  seed : UInt64
  used : Nat
  deriving DecidableEq, Repr

namespace Generator

/-- Rotates a word to the left. -/
def rotate (x : UInt32) (n : UInt32) : UInt32 := (x <<< n) ||| (x >>> (32 - n))

/-- One step of the generator that expands a seed: a word of the key and the next state. -/
def expandStep (state : UInt64) : UInt32 × UInt64 :=
  let next := state * 6364136223846793005 + 11634580027462260723
  let x := (((next >>> 18) ^^^ next) >>> 27).toUInt32
  let r := (next >>> 59).toUInt32
  ((x >>> r) ||| (x <<< ((32 - r) &&& 31)), next)

/-- The first `n` words that a state expands to. -/
def expand : Nat → UInt64 → List UInt32
  | 0, _ => []
  | n + 1, state => let (word, next) := expandStep state; word :: expand n next

/-- The sixteen words that the permutation works on. -/
abbrev Block := Vector UInt32 16

/-- Mixes four words of a block. -/
def quarterRound (s : Block) (i j k l : Fin 16) : Block :=
  let a := s[i] + s[j]
  let d := rotate (s[l] ^^^ a) 16
  let c := s[k] + d
  let b := rotate (s[j] ^^^ c) 12
  let a := a + b
  let d := rotate (d ^^^ a) 8
  let c := c + d
  let b := rotate (b ^^^ c) 7
  (((s.set i a).set j b).set k c).set l d

/-- Mixes the columns of a block and then its diagonals. -/
def doubleRound (s : Block) : Block :=
  let s := quarterRound s 0 4 8 12
  let s := quarterRound s 1 5 9 13
  let s := quarterRound s 2 6 10 14
  let s := quarterRound s 3 7 11 15
  let s := quarterRound s 0 5 10 15
  let s := quarterRound s 1 6 11 12
  let s := quarterRound s 2 7 8 13
  quarterRound s 3 4 9 14

/-- The block that the permutation starts from. -/
def startBlock (seed : UInt64) (index : Nat) : Block :=
  let key := expand 8 seed
  Vector.ofFn fun i : Fin 16 =>
    match i.val with
    | 0 => 0x61707865
    | 1 => 0x3320646e
    | 2 => 0x79622d32
    | 3 => 0x6b206574
    | 12 => index.toUInt32
    | 13 => (index / Nat.pow 2 32).toUInt32
    | 14 => 0
    | 15 => 0
    | n => key.getD (n - 4) 0

/-- Block `index` of the stream of a seed. -/
def block (seed : UInt64) (index : Nat) : Block :=
  let start := startBlock seed index
  let mixed := Nat.repeat doubleRound 6 start
  mixed.zipWith (· + ·) start

/-- Word `n` of the stream of a seed. -/
def word (seed : UInt64) (n : Nat) : UInt32 :=
  (block seed (n / 16)).get ⟨n % 16, Nat.mod_lt _ (by decide)⟩

/-- A double below one, from two words. -/
def unit (g : Generator) : Float × Generator :=
  let low := (word g.seed g.used).toUInt64
  let high := (word g.seed (g.used + 1)).toUInt64
  let bits := ((low ||| (high <<< 32)) >>> 12) ||| 0x3FF0000000000000
  (Float.ofBits bits - 1, { g with used := g.used + 2 })

/-- A double from zero up to a bound. A product that rounds up to the bound is drawn again, at most
`attempts` times. -/
def below (bound : Float) : Nat → Generator → Float × Generator
  | 0, g => (0, g)
  | attempts + 1, g =>
    let (x, g) := g.unit
    if x * bound < bound then (x * bound, g) else below bound attempts g

end Generator

end EntityScript
