import EntityScript.Decimal.Numeral
import EntityScript.Decimal.Shortest

/-!
Values of script variables and the names that store them. A name begins with a sigil that tells its
scope and its type; the sigil of system variables belongs to no stored name.
-/

namespace EntityScript

/-- The type of a stored variable; types order as they are listed. -/
inductive VarType where
  | text
  | int
  | float
  deriving DecidableEq, Repr

/-- The place of a type in the order of types. -/
def VarType.rank : VarType → Nat
  | .text => 0
  | .int => 1
  | .float => 2

/-- A text, a 64-bit integer or a double. -/
inductive Value where
  | text (s : String)
  | int (n : Int64)
  | float (x : Float)
  deriving Repr

namespace Value

/-- The type that a value has. -/
def type : Value → VarType
  | .text _ => .text
  | .int _ => .int
  | .float _ => .float

/-- A number as scripts show it: without a fraction and below `10 ^ 15` as an integer, otherwise
with the fewest digits that identify it. -/
def showFloat (x : Float) : String :=
  if Decimal.isIntegral x && x.abs < 1e15 then toString (Decimal.truncate x)
  else String.ofList (Decimal.shortest x)

/-- The value as a double; a text counts as the number at its front. -/
def asFloat : Value → Float
  | .text s => Decimal.leadingNumber s
  | .int n => Decimal.ofInt64 n
  | .float x => x

/-- The value as an integer; fractions are cut off and what is too large becomes the bound. -/
def asInt : Value → Int64
  | .text s => Decimal.truncate (Decimal.leadingNumber s)
  | .int n => n
  | .float x => Decimal.truncate x

/-- The value as a text. -/
def asText : Value → String
  | .text s => s
  | .int n => toString n
  | .float x => showFloat x

/-- The value as one of the given type; a value of that type stays as it is. -/
def coerce (v : Value) : VarType → Value
  | .text => .text v.asText
  | .int => .int v.asInt
  | .float => .float v.asFloat

@[simp] theorem type_coerce (v : Value) (t : VarType) : (v.coerce t).type = t := by
  cases t <;> rfl

@[simp] theorem coerce_type (v : Value) : v.coerce v.type = v := by
  cases v <;> rfl

end Value

/-- What a variable that was never written holds. -/
def VarType.zero : VarType → Value
  | .text => .text ""
  | .int => .int 0
  | .float => .float 0

/-- Whether a variable belongs to the whole session or to one entity. -/
inductive Scope where
  | global
  | local
  deriving DecidableEq, Repr

/-- The name of a stored variable. -/
structure VarKey where
  scope : Scope
  type : VarType
  name : String
  deriving DecidableEq, Repr

/-- The sigil of read-only system variables. -/
def systemSigil : Char := '^'

/-- Whether a word names a system variable. -/
def isSystemName (word : String) : Bool := word.toList.head? = some systemSigil

/-- The sigil that writes a scope and a type. -/
def sigilOf : Scope → VarType → Char
  | .global, .text => '$'
  | .global, .int => '#'
  | .global, .float => '&'
  | .local, .text => '£'
  | .local, .int => '§'
  | .local, .float => '@'

/-- The scope and type that a sigil writes. -/
def sigilKind? (c : Char) : Option (Scope × VarType) :=
  if c = '$' then some (.global, .text)
  else if c = '#' then some (.global, .int)
  else if c = '&' then some (.global, .float)
  else if c = '£' then some (.local, .text)
  else if c = '§' then some (.local, .int)
  else if c = '@' then some (.local, .float)
  else none

theorem sigilKind?_sigilOf (s : Scope) (t : VarType) : sigilKind? (sigilOf s t) = some (s, t) := by
  cases s <;> cases t <;> rfl

namespace VarKey

/-- The key that a word names: a sigil and a name that is not empty. -/
def parse? (word : String) : Option VarKey :=
  match word.toList with
  | c :: d :: cs => (sigilKind? c).map fun (s, t) => ⟨s, t, String.ofList (d :: cs)⟩
  | _ => none

/-- The key as scripts write it. -/
def spelled (k : VarKey) : String := String.ofList (sigilOf k.scope k.type :: k.name.toList)

/-- Reading what a key spells gives the key back, if its name is not empty. -/
theorem parse?_spelled {k : VarKey} (h : k.name ≠ "") : parse? k.spelled = some k := by
  obtain ⟨s, t, name⟩ := k
  have hcs : name.toList ≠ [] := by simpa using h
  obtain ⟨d, cs, hds⟩ := List.exists_cons_of_ne_nil hcs
  have hname : String.ofList (d :: cs) = name := by rw [← hds, String.ofList_toList]
  simp [parse?, spelled, hds, sigilKind?_sigilOf, hname]

end VarKey

/-- Whether a word stands for a stored or a system variable rather than for itself. -/
def isReference (word : String) : Bool := isSystemName word || (VarKey.parse? word).isSome

/-- The type that an unknown system variable is taken to have, told by the character after its
sigil. -/
def impliedType (word : String) : VarType :=
  match word.toList with
  | _ :: '#' :: _ => .int
  | _ :: '$' :: _ => .text
  | _ => .float

end EntityScript
