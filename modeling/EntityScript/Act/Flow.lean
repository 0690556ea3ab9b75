import EntityScript.Act.Variables

/-!
Moving about in a script: jumps to labels, subroutines, and the evaluation of conditions.
-/

namespace EntityScript.Act

/-- A label as a jump names it; the marker before it may be written. -/
def labelName (word : String) : String :=
  match word.toList with
  | '>' :: '>' :: cs => String.ofList cs
  | _ => word

/-- Moves behind a label, and pushes the current place for a subroutine; tells whether the label
exists. -/
def jump (label : String) (subroutine : Bool) : Act Bool := do
  let name := labelName label
  match (← invocation).script.label? name with
  | none => return false
  | some target =>
    modify fun p => { p with
      calls := if subroutine then ⟨name, p.pos⟩ :: p.calls else p.calls
      pos := target }
    return true

/-- Moves back to the latest return point; tells whether there is one. -/
def comeBack : Act Bool := do
  match (← get).calls with
  | [] => return false
  | c :: cs =>
    modify fun p => { p with pos := c.returnPos, calls := cs }
    return true

/-- An operand of a comparison. -/
inductive Operand where
  | number (x : Float)
  | text (s : String)

/-- Whether an operand is taken as a number or as a text. -/
inductive Kind where
  | number
  | text
  deriving DecidableEq, Repr

/-- The kind of an operand. -/
def Operand.kind : Operand → Kind
  | .number _ => .number
  | .text _ => .text

/-- A word of a condition that names a variable: a sigil with something behind it, or the system
sigil. -/
def namesVariable (word : String) : Bool := isReference word

/-- The operand that a variable gives. -/
def variableOperand (word : String) : Act Operand := do
  match ← readVar word with
  | .text s => return .text s
  | v => return .number v.asFloat

/-- The operand that a literal gives, taken as a number or as a text. -/
def literalOperand (word : String) (kind : Kind) : Act Operand := do
  let text ← expand word
  match kind with
  | .number => return .number (Decimal.leadingNumber text)
  | .text => return .text text

/-- The operand that a word gives; a literal is taken as the given kind. -/
def operand (word : String) (kind : Kind) : Act Operand :=
  if namesVariable word then variableOperand word else literalOperand word kind

/-- The operands of an equality. A literal is taken as what the other operand is; two literals are
numbers if both spell one. -/
def equalityOperands (left right : String) : Act (Operand × Operand) := do
  if namesVariable left then
    let a ← variableOperand left
    let b ← operand right a.kind
    return (a, b)
  else if namesVariable right then
    let b ← variableOperand right
    let a ← literalOperand left b.kind
    return (a, b)
  else
    let a ← expand left
    let b ← expand right
    if Decimal.isNumber a && Decimal.isNumber b then
      return (.number (Decimal.leadingNumber a), .number (Decimal.leadingNumber b))
    else return (.text a, .text b)

/-- The operands of a comparison. -/
def operands (c : Comparison) : Act (Operand × Operand) := do
  match c.relation with
  | .equal | .unequal => equalityOperands c.left c.right
  | .less | .atMost | .greater | .atLeast =>
    let a ← operand c.left .number
    let b ← operand c.right .number
    return (a, b)
  | _ =>
    let a ← operand c.left .text
    let b ← operand c.right .text
    return (a, b)

/-- Whether one text occurs in another. -/
def occursIn (part whole : List Char) : Bool :=
  part.isPrefixOf whole ||
    match whole with
    | [] => false
    | _ :: cs => occursIn part cs

/-- Whether a relation holds; there is no answer for operands of a kind it does not relate. -/
def holds? (entities : EntityTable) (this : EntityId) (r : Relation) :
    Operand → Operand → Option Bool
  | .number a, .number b =>
    match r with
    | .equal => some (a == b)
    | .unequal => some (a != b)
    | .less => some (a < b)
    | .atMost => some (a ≤ b)
    | .greater => some (b < a)
    | .atLeast => some (b ≤ a)
    | _ => none
  | .text a, .text b =>
    let named := (entities.resolve? a this).bind entities.get?
    match r with
    | .equal => some (a = b)
    | .unequal => some (a ≠ b)
    | .isClass => some (occursIn b.toList a.toList || occursIn a.toList b.toList)
    | .isGroup => some (named.any (·.groups.contains b))
    | .isNotGroup => some (!named.any (·.groups.contains b))
    | .isType => some (named.any (·.types.contains b))
    | .isIn => some (occursIn a.toList b.toList)
    | .isElement => some ((Text.words b).contains a)
    | _ => none
  | _, _ => none

/-- What a condition came to: its truth, and whether every comparison on the way had operands that
it relates. -/
structure Judgement where
  value : Bool
  sound : Bool
  deriving DecidableEq, Repr

/-- Evaluates a comparison. One that does not relate its operands is reported and counts as
false. -/
def compare (c : Comparison) : Act Judgement := do
  emit (Condition.unclosedNotes c.unclosed)
  modify fun p => { p with pos := c.stop }
  let (a, b) ← operands c
  match holds? (← world).entities (← invocation).entity c.relation a b with
  | some value => return ⟨value, true⟩
  | none =>
    warn ("type mismatch in '" ++ c.left ++ " " ++ c.spelled ++ " " ++ c.right ++ "'")
    return ⟨false, false⟩

mutual

/-- Evaluates a condition; nothing comes of one whose reading broke off. -/
def judge : Condition → Act (Option Judgement)
  | .comparison c => return some (← compare c)
  | .negation inner => do
    return (← judge inner).map fun j => { j with value := !j.value }
  | .junction all parts => judgeParts all ⟨all, true⟩ parts
  | .broken b => do
    emit (Condition.Break.notes b)
    return none
  | .cut inner b => do
    if (← judge inner).isSome then emit (Condition.Break.notes b)
    return none

/-- Evaluates the parts of a list from left to right. Once one of them decides, the others are only
read. -/
def judgeParts (all : Bool) (sofar : Judgement) : List Condition → Act (Option Judgement)
  | [] => return some sofar
  | c :: cs => do
    if sofar.value = all then
      match ← judge c with
      | none => return none
      | some j => judgeParts all ⟨j.value, sofar.sound && j.sound⟩ cs
    else
      emit c.notes
      if c.breaks then return none else judgeParts all sofar cs

end

/-- Evaluates the condition at the current place and moves behind it; a place beyond the end of the
text counts as the end. Nothing comes of a condition that cannot be evaluated. -/
def condition : Act (Option Bool) := do
  moveTo (← get).pos
  let (c, stop) := Condition.read ⟨(← get).pos, ← rest⟩
  let judgement ← judge c
  modify fun p => { p with pos := stop.pos }
  return judgement.bind fun j => if j.sound then some j.value else none

/-- Moves behind the condition at the current place. -/
def skipCondition : Act Unit := do
  moveTo (← get).pos
  let (c, stop) := Condition.read ⟨(← get).pos, ← rest⟩
  emit c.notes
  modify fun p => { p with pos := stop.pos }

end EntityScript.Act
