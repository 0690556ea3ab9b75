import EntityScript.Act.Words
import EntityScript.Format
import EntityScript.Template
import EntityScript.Text.Natural

/-!
Variables as scripts see them. A word may name a stored variable or a system variable, which the
session or the game answers; any other word stands for itself. References inside a word are replaced
by the text of what they name.
-/

namespace EntityScript.Act

/-- The distance reported for an entity that is not there. -/
def unknownDistance : Float := 99999999999

/-- What the name of a system variable asks for. -/
inductive SystemName where
  | me
  | sender
  /-- The game time in units of so many seconds. -/
  | gameTime (unit : Nat)
  | param (type : VarType) (index : Nat)
  | stopwatch (index : Nat)
  | random (bound : Float)
  | distance (target : String)
  /-- Left to the game. -/
  | foreign
  deriving Repr

/-- What is left of a text behind the given characters. -/
def behind? (lead : String) (cs : List Char) : Option (List Char) :=
  if lead.toList.isPrefixOf cs then some (cs.drop lead.length) else none

/-- A name that ends in an index. -/
def SystemName.indexed (make : Nat → SystemName) (index : List Char) : SystemName :=
  ((Text.natural? index).map make).getD .foreign

/-- What a name without its sigil asks for. -/
def SystemName.parse (name : List Char) : SystemName :=
  if name = "me".toList then .me
  else if name = "sender".toList then .sender
  else if name = "gameseconds".toList then .gameTime 1
  else if name = "gameminutes".toList then .gameTime 60
  else if name = "gamehours".toList then .gameTime 3600
  else if name = "gamedays".toList then .gameTime 86400
  else if let some index := behind? "$param" name then .indexed (.param .text) index
  else if let some index := behind? "&param" name then .indexed (.param .float) index
  else if let some index := behind? "#param" name then .indexed (.param .int) index
  else if let some index := behind? "#timer" name then .indexed .stopwatch index
  else if let some bound := behind? "rnd_" name then
    .random (Decimal.leadingNumber (String.ofList bound))
  else if let some target := behind? "dist_" name then .distance (String.ofList target)
  else .foreign

/-- A parameter by its number from one; there is no parameter zero. -/
def paramText (p : Parameters) (index : Nat) : String :=
  if index = 0 then "" else (p.get? (index - 1)).getD ""

/-- The milliseconds that a stopwatch runs, zero if it does not run. -/
def stopwatchMillis (clock : Duration) (e : Option Entity) (index : Nat) : Nat :=
  let started := if index = 0 then none else (e.bind fun e => e.stopwatches[index - 1]?).join
  (started.map fun start => (clock.since start).millis).getD 0

/-- A random number from zero up to a bound. -/
def draw (bound : Float) : Act Float := do
  match (← world).draw bound with
  | .ok (x, w) =>
    onWorld fun _ => w
    return x
  | .error f => fault f

/-- The value of a system variable. -/
def systemValue (name : String) : Act Value := do
  let inv ← invocation
  match SystemName.parse (name.toList.drop 1) with
  | .me => return .text (← ident)
  | .sender => return .text ((← world).entities.identOf inv.sender)
  | .gameTime unit =>
    return .int (Int64.ofNat (← world).clock.seconds / Int64.ofNat unit)
  | .param type index => return (Value.text (paramText inv.parameters index)).coerce type
  | .stopwatch index =>
    return .int (Int64.ofNat (stopwatchMillis (← world).clock (← self?) index))
  | .random bound => return .float (← draw bound)
  | .distance target =>
    let other := (← resolve? target).bind (← world).entities.get?
    match other, (← self?) with
    | some other, some this => return .float (this.position.distance other.position)
    | _, _ => return .float unknownDistance
  | .foreign =>
    let (answer, host) := (← get).session.host.ask name
    onSession fun s => { s with host }
    match answer with
    | some v => return v
    | none =>
      warn ("unknown system variable " ++ name)
      return (impliedType name).zero

/-- The table of a scope; the local table is that of the entity, if it is live. -/
def table? (scope : Scope) : Act (Option Variables) := do
  match scope with
  | .global => return some (← world).globals
  | .local => return (← self?).map Entity.locals

/-- The value stored under a key, the zero of its type if there is none. -/
def readKey (key : VarKey) : Act Value := do
  return ((← table? key.scope).map (·.value key.type key.name)).getD key.type.zero

/-- The value that a word names; a word that names nothing is a text. -/
def readVar (word : String) : Act Value := do
  if isSystemName word then systemValue word
  else
    match VarKey.parse? word with
    | some key => readKey key
    | none => return .text word

/-- The number that a word names or spells. -/
def readFloat (word : String) : Act Float := do
  if isReference word then return (← readVar word).asFloat else return Decimal.leadingNumber word

/-- Changes the table of a scope; tells whether there is one. -/
def onTable (scope : Scope) (f : Variables → Variables) : Act Bool := do
  match scope with
  | .global =>
    onWorld fun w => { w with globals := f w.globals }
    return true
  | .local => onSelf fun e => { e with locals := f e.locals }

/-- Writes a variable; tells whether its table exists. -/
def writeVar (key : VarKey) (v : Value) : Act Bool := onTable key.scope (·.setKey key v)

/-- Removes a variable; tells whether it was there. -/
def unsetVar (key : VarKey) : Act Bool := do
  let there := (← table? key.scope).any (·.contains key.type key.name)
  discard <| onTable key.scope (·.erase key.type key.name)
  return there

/-- The text of a reference. -/
def referenceText (reference : List Char) : Act String := do
  match Piece.target reference with
  | (some spec, name) => return (← readVar name).formatted spec
  | (none, name) => return (← readVar name).asText

/-- The text of one part of a word. -/
def pieceText : Piece → Act String
  | .literal text => return String.ofList text
  | .reference name => referenceText name
  | .unmatched text => do
    warn "unmatched '~'"
    return String.ofList text

/-- A word with its references replaced, from left to right. -/
def expand (word : String) : Act String := do
  return String.join (← (Piece.parts word).mapM pieceText)

/-- Reads a word and replaces its references. -/
def word : Act String := do expand (← rawWord)

/-- Reads a word as a number. -/
def float : Act Float := do readFloat (← word)

/-- Reads a word as a switch. -/
def bool : Act Bool := do
  let w ← word
  return w = "on" || w = "yes" || w = "true" || w = "1"

end EntityScript.Act
