import EntityScript.Proofs.Statements

/-! The words that a script writes and the names that they come to. Only by such a name can a script
ask for a random number without a finite bound. -/
namespace EntityScript

theorem Place.Reaches.suffix {p q : Place} (h : p.Reaches q) : q.rest <:+ p.rest := by
  obtain ⟨passed, hRest, _⟩ := h
  exact ⟨passed, hRest.symm⟩

/-- A random number without a finite bound. -/
def Act.SystemName.Boundless : SystemName → Prop
  | .random bound => ¬ bound ≤ 0 ∧ bound.isFinite = false
  | _ => False

namespace Script

theorem rest_suffix (s : Script) (pos : Nat) : s.rest pos <:+ s.text := by
  unfold rest
  cases hFrom : s.from? pos with
  | none => exact List.nil_suffix
  | some cs =>
      obtain ⟨before, hText, _⟩ := Text.from?_eq_some hFrom
      exact ⟨before, hText.symm⟩

/-- A word that is read somewhere in the script, behind a command or in a condition. -/
inductive Writes (s : Script) : String → Prop where
  | argument (pos : Nat) {cs : List Char} (hText : cs <:+ s.text) :
      Writes s (String.ofList (nextWord pos cs).value)
  | operand {p : Place} {w : String} (hText : p.rest <:+ s.text)
      (hToken : (nextToken p).token = .word w) : Writes s w

/-- A name that a word of the script is, or refers to, or becomes when its references are replaced. -/
inductive Names (s : Script) : String → Prop where
  | word {w : String} (hWord : s.Writes w) : Names s w
  | reference {w : String} {reference : List Char} (hWord : s.Writes w)
      (hReference : .reference reference ∈ Piece.parts w) : Names s (Piece.target reference).2
  | expansion {w name : String} {inv : Invocation} {p q : Progress} (hWord : s.Writes w)
      (hExpand : Act.expand w inv p = .ok name q) : Names s name

/-- A script with a name for a random number without a finite bound. -/
def Boundless (s : Script) : Prop :=
  ∃ name, s.Names name ∧ isSystemName name = true ∧
    (Act.SystemName.parse (name.toList.drop 1)).Boundless

end Script

namespace Condition

/-- The operands of every comparison are words of the script. -/
def Written (s : Script) : Condition → Prop
  | comparison c => s.Writes c.left ∧ s.Writes c.right
  | negation inner => inner.Written s
  | junction _ parts => AllWritten parts
  | broken _ => True
  | cut inner _ => inner.Written s
where
  /-- So are those of the parts. -/
  AllWritten : List Condition → Prop
    | [] => True
    | c :: cs => c.Written s ∧ AllWritten cs

variable {s : Script}

theorem readComparison_written (unclosed : List Nat) {p : Place} (hp : p.rest <:+ s.text) :
    (readComparison unclosed p).1.Written s := by
  have hMiddle := (Script.nextToken_reaches p).suffix.trans hp
  have hRight := (Script.nextToken_reaches (Script.nextToken p).next).suffix.trans hMiddle
  unfold readComparison
  dsimp only
  split
  · rename_i hLeft
    split
    · split
      · split
        · rename_i hWord
          exact ⟨.operand hp hLeft, .operand hRight hWord⟩
        · exact True.intro
      · exact True.intro
    · exact True.intro
  · exact True.intro

theorem close_written (message : String) {c : Condition} (hc : c.Written s) (p : Place) :
    (close message (c, p)).1.Written s := by
  unfold close
  dsimp only
  split
  · exact hc
  · split
    · exact hc
    · exact hc

mutual

theorem readItem_written (fuel : Nat) {p : Place} (hp : p.rest <:+ s.text) :
    (readItem fuel p).1.Written s := by
  cases fuel with
  | zero => exact True.intro
  | succ fuel =>
      have hToken := (Script.nextToken_reaches p).suffix.trans hp
      have hInside := (Script.nextToken_reaches (Script.nextToken p).next).suffix.trans hToken
      rw [readItem]
      dsimp only
      split
      · exact close_written _ (readItem_written fuel hToken) _
      · split
        · exact readComparison_written _ hp
        · split
          · split
            · exact close_written _ (c := .negation _) (readItem_written fuel hInside) _
            · have hParts := readParts_written fuel hInside
              split
              · exact hParts
              · exact hParts
          · exact readComparison_written _ hp
      · exact readComparison_written _ hp

theorem readParts_written (fuel : Nat) {p : Place} (hp : p.rest <:+ s.text) :
    Written.AllWritten s (readParts fuel p).1 := by
  cases fuel with
  | zero => exact True.intro
  | succ fuel =>
      have hItem := readItem_written fuel hp
      have hBehind := (readItem_reaches fuel p).suffix.trans hp
      have hToken := (Script.nextToken_reaches (readItem fuel p).2).suffix.trans hBehind
      rw [readParts]
      dsimp only
      split
      · exact ⟨hItem, True.intro⟩
      · split
        · exact ⟨hItem, readParts_written fuel hToken⟩
        · exact ⟨hItem, True.intro⟩
        · exact ⟨hItem, True.intro⟩

end

/-- The operands of a condition that is read in a script are words of the script. -/
theorem read_written {p : Place} (hp : p.rest <:+ s.text) : (read p).1.Written s :=
  readItem_written _ hp

end Condition

end EntityScript
