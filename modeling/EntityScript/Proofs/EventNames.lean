import EntityScript.Event.Name
import EntityScript.Proofs.LowerCase

/-! Names of events that are shown and read again. A name is cut at an `on ` in front of it, then at the blanks
around it, and then lowered. The last two steps leave nothing to do when they are taken once more. The first
comes before them and is taken once, so an `on ` that it does not see yet, behind blanks, in capital letters or
behind another one, is cut away when the name is read again. -/
namespace EntityScript

namespace Text

variable {c d : Char} {cs before : List Char}

/-- There is no blank at either end. -/
structure Trimmed (cs : List Char) : Prop where
  head : ∀ c ∈ cs.head?, isBlank c = false
  last : ∀ c ∈ cs.getLast?, isBlank c = false

theorem head?_trimLeft (cs : List Char) : ∀ c ∈ (trimLeft cs).head?, isBlank c = false := by
  intro c hc
  have hFirst := List.head?_dropWhile_not isBlank cs
  rwa [show (cs.dropWhile isBlank).head? = some c from hc] at hFirst

theorem trimLeft_eq (h : ∀ c ∈ cs.head?, isBlank c = false) : trimLeft cs = cs := by
  cases cs with
  | nil => rfl
  | cons c cs => rw [trimLeft, List.dropWhile_cons_of_neg (by simp [h c rfl])]

theorem trim_trimmed (cs : List Char) : Trimmed (trim cs) := by
  constructor
  · -- What was the first character before the end was cut is the first one still.
    intro c hc
    rw [trim, List.head?_reverse] at hc
    obtain ⟨passed, hPassed⟩ := List.dropWhile_suffix (l := (trimLeft cs).reverse) isBlank
    have hLast : (trimLeft cs).reverse.getLast? = some c := by
      rw [← hPassed, List.getLast?_append]
      rw [show (List.dropWhile isBlank (trimLeft cs).reverse).getLast? = some c from hc]
      rfl
    rw [List.getLast?_reverse] at hLast
    exact head?_trimLeft cs c hLast
  · intro c hc
    rw [trim, List.getLast?_reverse] at hc
    exact head?_trimLeft _ c hc

theorem Trimmed.trim_eq (h : Trimmed cs) : trim cs = cs := by
  rw [trim, trimLeft_eq h.head, trimLeft_eq, List.reverse_reverse]
  rw [List.head?_reverse]
  exact h.last

theorem trim_sublist (cs : List Char) : (trim cs).Sublist cs := by
  have hRight : (trimLeft (trimLeft cs).reverse).Sublist (trimLeft cs).reverse := List.dropWhile_sublist _
  have hLeft := hRight.reverse
  rw [List.reverse_reverse] at hLeft
  exact hLeft.trans (List.dropWhile_sublist _)

/-! Lowering leaves blanks where they are, and makes none. -/

/-- The numbers of the blanks. -/
def blankNumbers : List Nat :=
  [9, 10, 11, 12, 13, 32, 0x85, 0xa0, 0x1680] ++ List.range' 0x2000 11 ++
    [0x2028, 0x2029, 0x202f, 0x205f, 0x3000]

theorem mem_blankNumbers (h : isBlank c = true) : c.toNat ∈ blankNumbers := by
  have hEq (d : Char) : c = d ↔ c.toNat = d.toNat := Char.toNat_inj.symm
  have hLe (a b : Char) : a ≤ b ↔ a.toNat ≤ b.toNat := Iff.rfl
  simp only [isBlank, Bool.or_eq_true, Bool.and_eq_true, decide_eq_true_eq, hEq, hLe,
    Char.reduceToNat] at h
  simp only [blankNumbers, List.range', Nat.reduceAdd, List.cons_append, List.nil_append, List.mem_cons,
    List.not_mem_nil, or_false]
  omega

theorem origins_of_isBlank (h : isBlank d = true) : origins d.toNat = [] := by
  have hNone : ∀ n ∈ blankNumbers, origins n = [] := by decide +kernel
  exact hNone _ (mem_blankNumbers h)

/-- A character that is no blank is lowered to characters that are none. -/
theorem exists_lowerFrom_cons (before : List Char) (c : Char) (cs : List Char) :
    ∃ lowered, lowered ≠ [] ∧ lowerFrom before (c :: cs) = lowered ++ lowerFrom (c :: before) cs ∧
      (isBlank c = false → ∀ d ∈ lowered, isBlank d = false) := by
  rcases lowerFrom_cons_cases before c cs with hTwo | ⟨d, hOne, hOrigin⟩
  · have hDotted : ∀ d ∈ ['i', '\u0307'], isBlank d = false :=
      List.forall_mem_cons.mpr ⟨by decide, List.forall_mem_singleton.mpr (by decide)⟩
    exact ⟨['i', '\u0307'], List.cons_ne_nil _ _, hTwo, fun _ => hDotted⟩
  · refine ⟨[d], List.cons_ne_nil _ _, hOne, fun hBlank e he => ?_⟩
    obtain rfl := List.mem_singleton.mp he
    rcases hOrigin with rfl | hOrigin | hSigma
    · exact hBlank
    · cases hBlankOne : isBlank e with
      | false => rfl
      | true =>
          rw [origins_of_isBlank hBlankOne] at hOrigin
          cases hOrigin
    · have hSigmas : ∀ sigma ∈ ['ς', 'σ'], isBlank sigma = false :=
        List.forall_mem_cons.mpr ⟨by decide, List.forall_mem_singleton.mpr (by decide)⟩
      exact hSigmas e hSigma

theorem getLast?_lowerFrom (h : ∀ c ∈ cs.getLast?, isBlank c = false) (before : List Char) :
    ∀ c ∈ (lowerFrom before cs).getLast?, isBlank c = false := by
  induction cs generalizing before with
  | nil => exact h
  | cons c cs ih =>
      obtain ⟨lowered, -, hLowered, hKeeps⟩ := exists_lowerFrom_cons before c cs
      intro last hLast
      rw [hLowered, List.getLast?_append] at hLast
      cases cs with
      | nil => exact hKeeps (h c rfl) last (List.mem_of_getLast? hLast)
      | cons d cs =>
          -- What is behind is lowered to something, so the last character is there.
          obtain ⟨behind, hSome, hBehind, -⟩ := exists_lowerFrom_cons (c :: before) d cs
          cases hThere : (lowerFrom (c :: before) (d :: cs)).getLast? with
          | none =>
              rw [List.getLast?_eq_none_iff, hBehind] at hThere
              exact absurd (List.append_eq_nil_iff.mp hThere).1 hSome
          | some e =>
              rw [hThere] at hLast
              obtain rfl := Option.some.inj hLast
              rw [List.getLast?_cons_cons] at h
              exact ih h (c :: before) e hThere

theorem Trimmed.lowerFrom (h : Trimmed cs) (before : List Char) : Trimmed (lowerFrom before cs) := by
  refine ⟨?_, getLast?_lowerFrom h.last before⟩
  cases cs with
  | nil => exact h.head
  | cons c cs =>
      obtain ⟨lowered, hSome, hLowered, hKeeps⟩ := exists_lowerFrom_cons before c cs
      obtain ⟨first, others, rfl⟩ := List.exists_cons_of_ne_nil hSome
      intro d hd
      rw [hLowered] at hd
      obtain rfl := Option.some.inj hd
      exact hKeeps (h.head c rfl) first List.mem_cons_self

end Text

namespace EventName

open Text

variable {cs : List Char} {s : String}

/-- An `on ` stands in front, in whichever letters. -/
def LeadsOn (cs : List Char) : Prop :=
  ∃ o n rest, cs = o :: n :: ' ' :: rest ∧ o ∈ ['o', 'O'] ∧ n ∈ ['n', 'N']

theorem lowerFrom_on_iff : (∃ rest, lowerFrom [] cs = 'o' :: 'n' :: ' ' :: rest) ↔ LeadsOn cs := by
  constructor
  · rintro ⟨rest, hLowered⟩
    obtain ⟨o, behind, rfl, hBehind, hO⟩ := exists_cons_of_lowerFrom hLowered (by decide)
    obtain ⟨n, behind, rfl, hBehind, hN⟩ := exists_cons_of_lowerFrom hBehind.symm (by decide)
    obtain ⟨blank, behind, rfl, -, hBlank⟩ := exists_cons_of_lowerFrom hBehind.symm (by decide)
    have hOrigins : origins 'o'.toNat = ['O'.toNat] ∧ origins 'n'.toNat = ['N'.toNat] ∧
        origins ' '.toNat = [] := by
      decide +kernel
    simp only [hOrigins, List.mem_singleton, List.not_mem_nil, or_false, Char.toNat_inj] at hO hN hBlank
    exact ⟨o, n, behind, by rw [← hBlank], by simpa [eq_comm] using hO, by simpa [eq_comm] using hN⟩
  · rintro ⟨o, n, rest, rfl, hO, hN⟩
    have hLowered : lowerChar 'o' = ['o'] ∧ lowerChar 'O' = ['o'] ∧ lowerChar 'n' = ['n'] ∧
        lowerChar 'N' = ['n'] ∧ lowerChar ' ' = [' '] := by
      decide +kernel
    simp only [List.mem_cons, List.not_mem_nil, or_false] at hO hN
    rcases hO with rfl | rfl <;> rcases hN with rfl | rfl <;> simp [lowerFrom, hLowered]

/-- The written name without an `on ` in front and blanks around it, in small letters. -/
def normal (s : String) : String := lower (String.ofList (trim (withoutOn s.toList)))

theorem name_of_ofName? {m : Message} (h : Message.ofName? s = some m) : m.name = s := by
  obtain ⟨entry, hFind, rfl⟩ := Option.map_eq_some_iff.mp h
  have hNames : ∀ entry ∈ Message.table, entry.1.name = entry.2 := by decide
  rw [hNames entry (List.mem_of_find?_eq_some hFind)]
  simpa using List.find?_some hFind

theorem parse_eq (s : String) :
    parse s = ((Message.ofName? (normal s)).map fixed).getD (named (normal s)) := by
  unfold parse normal
  dsimp only
  split <;> simp_all

theorem shown_parse (s : String) : (parse s).shown = normal s := by
  rw [parse_eq]
  cases h : Message.ofName? (normal s) with
  | none => rfl
  | some m => exact name_of_ofName? h

theorem parse_eq_iff {s t : String} : parse s = parse t ↔ normal s = normal t := by
  constructor
  · intro h
    rw [← shown_parse, h, shown_parse]
  · intro h
    rw [parse_eq, h, parse_eq]

theorem toList_normal (s : String) : (normal s).toList = lowerFrom [] (trim (withoutOn s.toList)) := by
  rw [normal, lower, String.toList_ofList, String.toList_ofList]

/-- A name that is shown and read again is the same name exactly if no `on ` is left when the blanks around it
are gone. -/
theorem parse_shown_parse_iff (s : String) :
    parse (parse s).shown = parse s ↔ ¬ LeadsOn (trim (withoutOn s.toList)) := by
  rw [shown_parse, parse_eq_iff, ← lowerFrom_on_iff, ← toList_normal]
  constructor
  · -- The name without the `on ` is shorter, and nothing that follows makes it longer.
    rintro hSame ⟨rest, hOn⟩
    have hLowered : ∀ c ∈ trim rest, Lowered c := by
      intro c hc
      have hMem : c ∈ (normal s).toList := by
        rw [hOn]
        exact .tail _ (.tail _ (.tail _ ((trim_sublist rest).mem hc)))
      rw [toList_normal] at hMem
      exact (lowered_of_mem_lowerFrom hMem).1
    have hAgain : (normal s).toList = trim rest := by
      rw [← congrArg String.toList hSame, toList_normal, hOn]
      exact lowerFrom_lowered hLowered []
    have hShorter := (trim_sublist rest).length_le
    rw [← hAgain, hOn] at hShorter
    simp only [List.length_cons] at hShorter
    omega
  · intro hOff
    have hWithout : withoutOn (normal s).toList = (normal s).toList := by
      unfold withoutOn
      split
      · rename_i rest hOn
        exact absurd ⟨rest, hOn⟩ hOff
      · rfl
    have hTrimmed : trim (normal s).toList = (normal s).toList := by
      rw [toList_normal]
      exact ((trim_trimmed _).lowerFrom []).trim_eq
    rw [normal, hWithout, hTrimmed, String.ofList_toList]
    exact lower_lower _

example : parse " ON init" = .named "on init" ∧ parse "on init" = .fixed .init := by decide +kernel

end EventName

end EntityScript
