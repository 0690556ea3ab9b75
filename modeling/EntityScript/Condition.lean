import EntityScript.Script.Token

/-!
Conditions and how they are read. A condition is a comparison, the negation of a condition, or all or
any of several; parentheses may surround it. Reading depends on the text alone: it yields a syntax
tree and the place behind it. Where the text is no condition the tree ends in a break, and reading
goes on at the body.
-/

namespace EntityScript

/-- How a comparison relates its operands. -/
inductive Relation where
  | equal
  | unequal
  | less
  | atMost
  | greater
  | atLeast
  | isClass
  | isGroup
  | isNotGroup
  | isType
  | isIn
  | isElement
  deriving DecidableEq, Repr

/-- The relation that a word writes. -/
def Relation.parse? (word : String) : Option Relation :=
  match word with
  | "==" => some .equal
  | "!=" => some .unequal
  | "<" => some .less
  | "<=" => some .atMost
  | ">" => some .greater
  | ">=" => some .atLeast
  | "isclass" => some .isClass
  | "isgroup" => some .isGroup
  | "!isgroup" => some .isNotGroup
  | "istype" => some .isType
  | "isin" => some .isIn
  | "iselement" => some .isElement
  | _ => none

/-- Two operands and the relation between them. `unclosed` holds where unclosed quotes were met,
`stop` the offset behind the right operand. -/
structure Comparison where
  left : String
  relation : Relation
  spelled : String
  right : String
  unclosed : List Nat
  stop : Nat
  deriving DecidableEq, Repr

/-- Where and why a text stops being a condition. -/
structure Break where
  unclosed : List Nat
  message : String
  pos : Nat
  deriving DecidableEq, Repr

/-- A condition as it was read. -/
inductive Condition where
  | comparison (c : Comparison)
  | negation (inner : Condition)
  /-- All of the parts, or any of them. -/
  | junction (all : Bool) (parts : List Condition)
  /-- No condition begins here. -/
  | broken (b : Break)
  /-- A condition that is not ended as it must be. -/
  | cut (inner : Condition) (b : Break)
  deriving Repr

namespace Condition

/-- What opens a list of conditions, told by the word before the parenthesis. -/
inductive Connective where
  | negation
  | junction (all : Bool)
  deriving DecidableEq, Repr

/-- The connective that a word names. -/
def Connective.parse? (word : String) : Option Connective :=
  if word = "and" then some (.junction true)
  else if word = "or" then some (.junction false)
  else if word = "not" then some .negation
  else none

/-- Whether reading broke off inside. -/
def breaks : Condition → Bool
  | comparison _ => false
  | negation inner => inner.breaks
  | junction _ parts => anyBreaks parts
  | broken _ => true
  | cut _ _ => true
where
  /-- Whether reading broke off inside one of the parts. -/
  anyBreaks : List Condition → Bool
    | [] => false
    | c :: cs => c.breaks || anyBreaks cs

/-- Where unclosed quotes were met. -/
def unclosedNotes (unclosed : List Nat) : List Note := unclosed.map (⟨·, "missing closing quote"⟩)

/-- What a break reports. -/
def Break.notes (b : Break) : List Note :=
  unclosedNotes b.unclosed ++ [⟨b.pos, "invalid condition: " ++ b.message⟩]

/-- What reading reports, in order. -/
def notes : Condition → List Note
  | comparison c => unclosedNotes c.unclosed
  | negation inner => inner.notes
  | junction _ parts => allNotes parts
  | broken b => Break.notes b
  | cut inner b => inner.notes ++ Break.notes b
where
  /-- What reading the parts reports, in order. -/
  allNotes : List Condition → List Note
    | [] => []
    | c :: cs => c.notes ++ allNotes cs

/-- The offset of a token at `p` if its quotes are not closed. -/
def unclosedAt (p : Place) (l : Lexeme) : List Nat := if l.unclosed then [p.pos] else []

/-- The next brace that opens a body, or the end of the line. -/
def bodyStart (p : Place) : Place :=
  let passed := p.rest.takeWhile fun c => c ≠ '\x7b' && c ≠ '\n'
  ⟨p.pos + Text.width passed, p.rest.drop passed.length⟩

/-- A break at a place; reading goes on at the body. -/
def breakAt (unclosed : List Nat) (message : String) (p : Place) : Condition × Place :=
  (.broken ⟨unclosed, message, p.pos⟩, bodyStart p)

/-- Reads a comparison; `unclosed` holds what was met while looking ahead. -/
def readComparison (unclosed : List Nat) (p : Place) : Condition × Place :=
  let l := Script.nextToken p
  let unclosed := unclosed ++ unclosedAt p l
  match l.token with
  | .word left =>
    let o := Script.nextToken l.next
    let unclosed := unclosed ++ unclosedAt l.next o
    match o.token with
    | .word spelled =>
      match Relation.parse? spelled with
      | some relation =>
        let r := Script.nextToken o.next
        let unclosed := unclosed ++ unclosedAt o.next r
        match r.token with
        | .word right =>
          (.comparison ⟨left, relation, spelled, right, unclosed, r.next.pos⟩, r.next)
        | _ => breakAt unclosed "expected operand" r.next
      | none => breakAt unclosed ("unknown operator '" ++ spelled ++ "'") o.next
    | _ => breakAt unclosed "expected operator" o.next
  | _ => breakAt unclosed "expected operand" l.next

/-- Ends what was read with a closing parenthesis. -/
def close (message : String) (read : Condition × Place) : Condition × Place :=
  let (c, p) := read
  if c.breaks then (c, p)
  else
    let l := Script.nextToken p
    match l.token with
    | .closing => (c, l.next)
    | _ => (.cut c ⟨unclosedAt p l, message, l.next.pos⟩, bodyStart l.next)

mutual

/-- Reads a condition, with at most `fuel` conditions inside one another. -/
def readItem : Nat → Place → Condition × Place
  | 0, p => breakAt [] "expected operand" p
  | fuel + 1, p =>
    let l := Script.nextToken p
    match l.token with
    | .opening => close "expected ')'" (readItem fuel l.next)
    | .word w =>
      match Connective.parse? w with
      | none => readComparison (unclosedAt p l ++ unclosedAt p l) p
      | some connective =>
        let o := Script.nextToken l.next
        if o.token = .opening then
          match connective with
          | .negation =>
            let (c, q) := readItem fuel o.next
            close "'not' takes exactly one condition" (.negation c, q)
          | .junction all =>
            let (parts, ending, q) := readParts fuel o.next
            match ending with
            | none => (.junction all parts, q)
            | some b => (.cut (.junction all parts) b, q)
        else
          readComparison (unclosedAt p l ++ unclosedAt p l ++ unclosedAt l.next o) p
    | _ => readComparison [] p

/-- Reads the conditions of a list up to the closing parenthesis, and the break if the list does not
end as it must. -/
def readParts : Nat → Place → List Condition × Option Break × Place
  | 0, p => ([], some ⟨[], "expected operand", p.pos⟩, bodyStart p)
  | fuel + 1, p =>
    let (c, q) := readItem fuel p
    if c.breaks then ([c], none, q)
    else
      let l := Script.nextToken q
      match l.token with
      | .separator =>
        let (cs, ending, r) := readParts fuel l.next
        (c :: cs, ending, r)
      | .closing => ([c], none, l.next)
      | _ => ([c], some ⟨unclosedAt q l, "expected ',' or ')'", l.next.pos⟩, bodyStart l.next)

end

/-- Reads the condition at a place and the place behind it. -/
def read (p : Place) : Condition × Place := readItem (2 * p.rest.length + 2) p

end Condition

end EntityScript
