import EntityScript.Text.CaseTable

/-!
Lower-casing of whole texts. A capital sigma that ends a word becomes the final form of the letter;
every other character is lowered on its own.
-/

namespace EntityScript.Text

/-- The first entry of an ascending table that reaches `n`. -/
def CaseRun.find? (n : Nat) : List CaseRun → Option CaseRun
  | [] => none
  | r :: rs => if n < r.first then none else if n ≤ r.last then some r else find? n rs

/-- Whether one of the ascending inclusive ranges holds `n`. -/
def inRanges (n : Nat) : List (Nat × Nat) → Bool
  | [] => false
  | (first, last) :: rest => if n < first then false else n ≤ last || inRanges n rest

/-- The lower-case form of one character on its own. Only the dotted capital i needs two
characters. -/
def lowerChar (c : Char) : List Char :=
  if c = '\u0130' then ['i', '\u0307']
  else
    match CaseRun.find? c.toNat lowerRuns with
    | none => [c]
    | some r =>
      if (c.toNat - r.first) % r.step = 0 then [Char.ofNat (r.target + (c.toNat - r.first))]
      else [c]

/-- Whether the first character that is not passed over has case. -/
def meetsCased (cs : List Char) : Bool :=
  match cs.dropWhile fun c => inRanges c.toNat ignorableRanges with
  | [] => false
  | c :: _ => inRanges c.toNat casedRanges

/-- Lowers the characters after `before`, which is held in reverse. -/
def lowerFrom (before : List Char) : List Char → List Char
  | [] => []
  | c :: cs =>
    let lowered :=
      if c = 'Σ' then (if meetsCased before && !meetsCased cs then ['ς'] else ['σ'])
      else lowerChar c
    lowered ++ lowerFrom (c :: before) cs

/-- The lower-case form of a text. -/
def lower (s : String) : String := String.ofList (lowerFrom [] s.toList)

end EntityScript.Text
