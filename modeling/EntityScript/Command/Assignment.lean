import EntityScript.Command.Basic

/-!
Commands that write variables. Integer variables are computed exactly while the operand is an
integer; everything else is computed as a double and converted back to the type of the variable.
-/

namespace EntityScript

/-- An operation that changes a number in place. -/
inductive Arithmetic where
  | add
  | sub
  | mul
  | div
  | mod
  | pow
  | root
  deriving DecidableEq, Repr

namespace Arithmetic

/-- The name of an operation in diagnostics. -/
def name : Arithmetic → String
  | .add => "add"
  | .sub => "sub"
  | .mul => "mul"
  | .div => "div"
  | .mod => "mod"
  | .pow => "pow"
  | .root => "nthroot"

/-- The operation on integers modulo `2 ^ 64`, where it has one. -/
def onInts? (op : Arithmetic) (a b : Int64) : Option Int64 :=
  match op with
  | .add => some (a + b)
  | .sub => some (a - b)
  | .mul => some (a * b)
  | .mod => some (a % b)
  | _ => none

/-- The operation on doubles. -/
def onFloats (op : Arithmetic) (a b : Float) : Float :=
  match op with
  | .add => a + b
  | .sub => a - b
  | .mul => a * b
  | .div => a / b
  | .mod => Decimal.remainder a b
  | .pow => a.pow b
  | .root => a.pow (1 / b)

/-- Whether an operand of zero is refused. -/
def divides : Arithmetic → Bool
  | .div | .mod | .root => true
  | _ => false

/-- The new value of a variable. -/
def apply (op : Arithmetic) (type : VarType) (current : Value) (b : Float) : Value :=
  let integral := Decimal.isIntegral b && b.abs < 9223372036854775808
  let exact := match type, current with
    | .int, .int a => if integral then op.onInts? a (Decimal.truncate b) else none
    | _, _ => none
  match exact with
  | some n => .int n
  | none => .float (op.onFloats current.asFloat b)

end Arithmetic

namespace Command

open Act

/-- The variable that a word names; anything else is reported. -/
def writable? (word : String) : Act (Option VarKey) := do
  if isSystemName word then
    warnAt word ("cannot assign to system variable " ++ word)
    return none
  match VarKey.parse? word with
  | some key => return some key
  | none =>
    warnAt word ("'" ++ word ++ "' is not a variable")
    return none

/-- The value that a word gives to a variable of a type: that of a variable, or a literal. -/
def operandValue (word : String) (type : VarType) : Act Value := do
  if isReference word then readVar word
  else if type = .text then return .text word
  else return .float (Decimal.leadingNumber word)

/-- Writes a variable. -/
def assign (key : VarKey) (v : Value) : Act Reply := do
  if ← writeVar key (v.coerce key.type) then return .success else return .failed

/-- Writes one word of a list, counted from zero, to a variable. -/
def setElement : Act Reply := do
  let target ← word
  let index ← word
  let list ← word
  match ← writable? target with
  | none => return .failed
  | some key =>
    let index := Decimal.truncate (← readFloat index)
    let list ← if isReference list then Value.asText <$> readVar list else pure list
    let element := if index < 0 then "" else ((Text.words list)[index.toNatClampNeg]?).getD ""
    assign key (if key.type = .text then .text element else .float (Decimal.leadingNumber element))

/-- Writes the number of carried items whose names begin with a word to a variable. -/
def setItemCount : Act Reply := do
  let target ← word
  let lead ← word
  match ← writable? target with
  | none => return .failed
  | some key =>
    let items := ((← self?).map Entity.inventory).getD []
    assign key (.int (Int64.ofNat (items.countP fun item => lead.toList.isPrefixOf item.toList)))

/-- Writes a value to a variable. -/
def runSet : Act Reply := do
  let flags ← flags
  if flags.toList.contains 'a' then setElement
  else if flags.toList.contains 'i' then setItemCount
  else
    let target ← word
    let value ← word
    match ← writable? target with
    | none => return .failed
    | some key => assign key (← operandValue value key.type)

/-- Removes a variable. -/
def runUnset : Act Reply := do
  match ← writable? (← word) with
  | none => return .failed
  | some key =>
    discard <| unsetVar key
    return .success

/-- Changes a numeric variable by an operation. -/
def update (key : VarKey) (op : Arithmetic) (operand : Value) : Act Reply := do
  let b := operand.asFloat
  if key.type = .text then
    warn (op.name ++ ": " ++ key.spelled ++ " is not numeric")
    return .failed
  else if op.divides && b == 0 then
    warn (op.name ++ " " ++ key.spelled ++ ": division by zero")
    return .failed
  else assign key (op.apply key.type (← readKey key) b)

/-- Changes a variable by an operation and an operand. -/
def runArithmetic (op : Arithmetic) : Act Reply := do
  let target ← word
  let operand ← word
  match ← writable? target with
  | none => return .failed
  | some key => update key op (← operandValue operand .float)

/-- Changes a variable by one. -/
def runStep (delta : Int64) : Act Reply := do
  match ← writable? (← word) with
  | none => return .failed
  | some key => update key .add (.int delta)

/-- The commands that write variables. -/
def assignment : List Command := [
  { name := "set", run := runSet },
  { name := "unset", run := runUnset },
  { name := "inc", run := runArithmetic .add },
  { name := "add", run := runArithmetic .add },
  { name := "dec", run := runArithmetic .sub },
  { name := "sub", run := runArithmetic .sub },
  { name := "mul", run := runArithmetic .mul },
  { name := "div", run := runArithmetic .div },
  { name := "mod", run := runArithmetic .mod },
  { name := "pow", run := runArithmetic .pow },
  { name := "nthroot", run := runArithmetic .root },
  { name := "++", run := runStep 1 },
  { name := "--", run := runStep (-1) }]

end Command

end EntityScript
