import EntityScript.Proofs.IntegerDoubles
import EntityScript.Proofs.Storage

/-! Arithmetic on integer variables. The operand reaches the operation as a double, so an integer operand
is first rounded to 53 bits. Below `2 ^ 63` the operation on integers follows, modulo `2 ^ 64`; an operand
that is rounded to the bound is computed with as a double, and so is the other one. -/
namespace EntityScript

open Decimal

/-- The operation on integers that an operation on numbers stands for, if it has one. -/
def Arithmetic.whole? : Arithmetic → Option (Int → Int → Int)
  | .add => some (· + ·)
  | .sub => some (· - ·)
  | .mul => some (· * ·)
  | .mod => some Int.tmod
  | _ => none

/-- What an operation leaves in an integer variable that held `a` if the operand holds `b`. -/
def Arithmetic.stored (f : Int → Int → Int) (a b : Int64) : Int64 :=
  if (nearest b.toInt).natAbs < 2 ^ 63 then Int64.ofInt (f a.toInt (nearest b.toInt))
  else Int64.ofIntClamp (nearest (f (nearest a.toInt) (nearest b.toInt)))

namespace Arithmetic

variable {op : Arithmetic} {f : Int → Int → Int} {a b : Int64} {x y : Float} {m n : Int}

theorem natAbs_toInt_le (n : Int64) : n.toInt.natAbs ≤ 2 ^ 63 := by
  have := n.toInt_lt
  have := n.le_toInt
  omega

/-- Integers below `2 ^ 63` are what becomes of them. -/
theorem ofInt_ne (hm : m.natAbs < 2 ^ 63) (hn : n.natAbs < 2 ^ 63) (h : m ≠ n) :
    Int64.ofInt m ≠ Int64.ofInt n := fun hSame => h (by
  have hToInt := congrArg Int64.toInt hSame
  rwa [Int64.toInt_ofInt_of_le (by omega) (by omega), Int64.toInt_ofInt_of_le (by omega) (by omega)]
    at hToInt)

theorem nearest_le (n : Int64) : (nearest n.toInt).natAbs ≤ 2 ^ 63 := by
  rw [natAbs_nearest]
  exact nearestNat_le_two_pow (natAbs_toInt_le n)

/-- The operation on integers modulo `2 ^ 64` is the exact one, reduced. -/
theorem onInts?_eq (hWhole : op.whole? = some f) (a : Int64) (hn : n.natAbs < 2 ^ 63) :
    op.onInts? a (Int64.ofInt n) = some (Int64.ofInt (f a.toInt n)) := by
  cases op with
  | add =>
      cases hWhole
      simp [onInts?]
  | sub =>
      cases hWhole
      simp [onInts?]
  | mul =>
      cases hWhole
      simp [onInts?]
  | mod =>
      cases hWhole
      have hLow : Int64.minValue.toInt = -2 ^ 63 := rfl
      have hHigh : Int64.maxValue.toInt = 2 ^ 63 - 1 := rfl
      have := a.toInt_lt
      have := a.le_toInt
      have hMod : Int64.ofInt (a.toInt.tmod n) = Int64.ofInt a.toInt % Int64.ofInt n :=
        Int64.ofInt_tmod (by omega) (by omega) (by omega) (by omega)
      rw [onInts?, hMod, Int64.ofInt_toInt]
  | div | pow | root => cases hWhole

/-- The operation on doubles rounds the exact result. -/
theorem isInt_onFloats (hWhole : op.whole? = some f) (hx : IsInt x m) (hy : IsInt y n)
    (hNonzero : op = .mod → n ≠ 0) (hm : m.natAbs ≤ 2 ^ 63) (hn : n.natAbs ≤ 2 ^ 63) :
    IsInt (op.onFloats x y) (nearest (f m n)) := by
  cases op with
  | add =>
      cases hWhole
      exact hx.add hy (by omega)
  | sub =>
      cases hWhole
      exact hx.sub hy (by omega)
  | mul =>
      cases hWhole
      have hProd : m.natAbs * n.natAbs ≤ 2 ^ 63 * 2 ^ 63 := Nat.mul_le_mul hm hn
      exact hx.mul hy (by rw [Int.natAbs_mul]; omega)
  | mod =>
      cases hWhole
      have hRem : m.natAbs % n.natAbs ≤ m.natAbs := Nat.mod_le _ _
      exact hx.remainder hy (hNonzero rfl) (by rw [Int.natAbs_tmod]; omega)
  | div | pow | root => cases hWhole

/-- The new value of an integer variable. -/
theorem apply_ints (hWhole : op.whole? = some f) (hNonzero : op = .mod → b ≠ 0) :
    (op.apply .int (.int a) (ofInt64 b)).coerce .int = .int (stored f a b) := by
  have hb := isInt_ofInt64 b
  have hb' : op = .mod → nearest b.toInt ≠ 0 := fun hMod hZero =>
    hNonzero hMod (Int64.toInt_inj.mp (nearest_eq_zero_iff.mp hZero))
  rw [apply, hb.isIntegral, hb.abs_lt, hb.truncate_eq, Bool.true_and, stored]
  by_cases hFits : (nearest b.toInt).natAbs < 2 ^ 63
  · have hClamp : Int64.ofIntClamp (nearest b.toInt) = Int64.ofInt (nearest b.toInt) := by
      have hLow : Int64.minValue.toInt = -2 ^ 63 := rfl
      have hHigh : Int64.maxValue.toInt = 2 ^ 63 - 1 := rfl
      rw [Int64.ofIntClamp, dif_pos (by omega), dif_pos (by omega), Int64.ofIntLE_eq_ofInt]
    rw [hClamp]
    simp only [hFits, decide_true, if_true, onInts?_eq hWhole a hFits]
    rfl
  · have hOnFloats := isInt_onFloats hWhole (isInt_ofInt64 a) hb hb' (nearest_le a) (nearest_le b)
    simp only [hFits, decide_false, Bool.false_eq_true, if_false]
    exact congrArg Value.int hOnFloats.truncate_eq

/-- Some value of the variable shows that an operand is rounded. -/
theorem exists_inexact (hWhole : op.whole? = some f)
    (hFits : (nearest b.toInt).natAbs < 2 ^ 63) (hRounded : nearest b.toInt ≠ b.toInt) :
    ∃ n : Int64, stored f n b ≠ Int64.ofInt (f n.toInt b.toInt) := by
  have hb : b.toInt.natAbs < 2 ^ 63 := by
    have hLe := natAbs_toInt_le b
    rcases Nat.lt_or_eq_of_le hLe with hLt | hBound
    · exact hLt
    · rw [natAbs_nearest, hBound] at hFits
      exact absurd hFits (by decide +kernel)
  simp only [stored, if_pos hFits]
  cases op with
  | add =>
      cases hWhole
      refine ⟨0, ofInt_ne ?_ ?_ ?_⟩ <;> simpa using by assumption
  | sub =>
      cases hWhole
      refine ⟨0, ofInt_ne ?_ ?_ ?_⟩ <;> simpa using by assumption
  | mul =>
      cases hWhole
      refine ⟨1, ofInt_ne ?_ ?_ ?_⟩ <;> simpa using by assumption
  | mod =>
      cases hWhole
      -- The operand divides itself, but what it is rounded to does not.
      refine ⟨b, ofInt_ne ?_ ?_ ?_⟩
      · have hRem : b.toInt.natAbs % (nearest b.toInt).natAbs ≤ b.toInt.natAbs := Nat.mod_le _ _
        rw [Int.natAbs_tmod]
        omega
      · simp
      · rw [Int.tmod_self]
        exact fun hZero => hRounded (nearest_dvd_iff.mp (Int.dvd_of_tmod_eq_zero hZero))
  | div | pow | root => cases hWhole

/-- A result is cut off at the bound where the exact one is reduced modulo `2 ^ 64`. -/
theorem stored_ne (i v : Int) {r : Int} (hBound : ¬ (nearest b.toInt).natAbs < 2 ^ 63)
    (hNearest : nearest b.toInt = r) (ha : a.toInt = i)
    (hClamped : (Int64.ofIntClamp (nearest (f (nearest i) r))).toInt = v)
    (hReduced : (f i b.toInt).bmod (2 ^ 64) ≠ v) : stored f a b ≠ Int64.ofInt (f a.toInt b.toInt) := by
  intro hSame
  have hToInt := congrArg Int64.toInt hSame
  rw [stored, if_neg hBound, ha, hNearest, hClamped, Int64.toInt_ofInt] at hToInt
  exact hReduced hToInt.symm

/-- What is rounded to the bound lies beyond half of it. -/
theorem nearest_bound (hBound : ¬ (nearest b.toInt).natAbs < 2 ^ 63) :
    nearest b.toInt = -2 ^ 63 ∧ b.toInt < -2 ^ 62 ∨ nearest b.toInt = 2 ^ 63 ∧ 2 ^ 62 < b.toInt := by
  have hLarge : 2 ^ 62 < b.toInt.natAbs := by
    by_contra hSmall
    have := nearestNat_le_two_pow (Nat.not_lt.mp hSmall)
    rw [natAbs_nearest] at hBound
    omega
  have hRounded : nearestNat b.toInt.natAbs = 2 ^ 63 := by
    have := nearest_le b
    rw [natAbs_nearest] at hBound this
    omega
  rw [nearest, hRounded]
  rcases lt_or_gt_of_ne (show b.toInt ≠ 0 by omega) with hNeg | hPos
  · rw [Int.sign_eq_neg_one_of_neg hNeg]
    exact .inl ⟨rfl, by omega⟩
  · rw [Int.sign_eq_one_of_pos hPos]
    exact .inr ⟨rfl, by omega⟩

/-- Some value of the variable shows that an operand is rounded to the bound. -/
theorem exists_clamped (hWhole : op.whole? = some f)
    (hBound : ¬ (nearest b.toInt).natAbs < 2 ^ 63) :
    ∃ n : Int64, stored f n b ≠ Int64.ofInt (f n.toInt b.toInt) := by
  have hLt := b.toInt_lt
  have hLe := b.le_toInt
  have hSides := nearest_bound hBound
  cases op with
  | add =>
      cases hWhole
      rcases hSides with ⟨hNearest, hSide⟩ | ⟨hNearest, hSide⟩
      · refine ⟨-2 ^ 62, stored_ne (-2 ^ 62) (-2 ^ 63) hBound hNearest ?_ ?_ ?_⟩
        · decide +kernel
        · decide +kernel
        · simp only [Int.bmod_def]
          omega
      · refine ⟨2 ^ 62, stored_ne (2 ^ 62) (2 ^ 63 - 1) hBound hNearest ?_ ?_ ?_⟩
        · decide +kernel
        · decide +kernel
        · simp only [Int.bmod_def]
          omega
  | sub =>
      cases hWhole
      rcases hSides with ⟨hNearest, hSide⟩ | ⟨hNearest, hSide⟩
      · refine ⟨2 ^ 62, stored_ne (2 ^ 62) (2 ^ 63 - 1) hBound hNearest ?_ ?_ ?_⟩
        · decide +kernel
        · decide +kernel
        · simp only [Int.bmod_def]
          omega
      · refine ⟨-2 ^ 62, stored_ne (-2 ^ 62) (-2 ^ 63) hBound hNearest ?_ ?_ ?_⟩
        · decide +kernel
        · decide +kernel
        · simp only [Int.bmod_def]
          omega
  | mul =>
      cases hWhole
      rcases hSides with ⟨hNearest, hSide⟩ | ⟨hNearest, hSide⟩
      · refine ⟨2, stored_ne 2 (-2 ^ 63) hBound hNearest rfl (by decide +kernel) ?_⟩
        simp only [Int.bmod_def]
        omega
      · refine ⟨2, stored_ne 2 (2 ^ 63 - 1) hBound hNearest rfl (by decide +kernel) ?_⟩
        simp only [Int.bmod_def]
        omega
  | mod =>
      cases hWhole
      -- The bound leaves the rounded value of the variable, the operand leaves the value itself.
      have hExact : ((2 ^ 53 + 1 : Int).tmod b.toInt).bmod (2 ^ 64) ≠ 2 ^ 53 := by
        have hAbs : ((2 ^ 53 + 1 : Int).tmod b.toInt).natAbs = 2 ^ 53 + 1 := by
          rw [Int.natAbs_tmod]
          exact Nat.mod_eq_of_lt (by omega)
        have hSign := Int.tmod_nonneg b.toInt (show (0 : Int) ≤ 2 ^ 53 + 1 by decide)
        rw [show (2 ^ 53 + 1 : Int).tmod b.toInt = 2 ^ 53 + 1 by omega]
        decide +kernel
      refine ⟨2 ^ 53 + 1, ?_⟩
      rcases hSides with ⟨hNearest, -⟩ | ⟨hNearest, -⟩
      · exact stored_ne _ _ hBound hNearest (by decide +kernel) (by decide +kernel) hExact
      · exact stored_ne _ _ hBound hNearest (by decide +kernel) (by decide +kernel) hExact
  | div | pow | root => cases hWhole

/-- The result is exact for every value of the variable exactly if the operand is a double below the
bound. -/
theorem stored_exact_iff (hWhole : op.whole? = some f) :
    (∀ n, stored f n b = Int64.ofInt (f n.toInt b.toInt)) ↔
      nearest b.toInt = b.toInt ∧ b ≠ Int64.minValue := by
  constructor
  · intro hExact
    by_contra hNot
    by_cases hFits : (nearest b.toInt).natAbs < 2 ^ 63
    · have hRounded : nearest b.toInt ≠ b.toInt := fun hSame => hNot ⟨hSame, by
        rintro rfl
        exact absurd hFits (by decide +kernel)⟩
      obtain ⟨n, hn⟩ := exists_inexact hWhole hFits hRounded
      exact hn (hExact n)
    · obtain ⟨n, hn⟩ := exists_clamped hWhole hFits
      exact hn (hExact n)
  · rintro ⟨hSame, hMin⟩ n
    have hLow : b.toInt ≠ -2 ^ 63 := fun hLow => hMin (Int64.toInt_inj.mp hLow)
    have := b.toInt_lt
    have := b.le_toInt
    rw [stored, hSame, if_pos (by omega)]

end Arithmetic

namespace Command

open Arithmetic

variable {c : Command} {op : Arithmetic}

/-- A command that has the name of an operation performs it. -/
theorem run_of_name (hCommand : c ∈ assignment) (hName : c.name = op.name) :
    c.run = runArithmetic op := by
  simp only [assignment, List.mem_cons, List.not_mem_nil, or_false] at hCommand
  rcases hCommand with rfl | rfl | rfl | rfl | rfl | rfl | rfl | rfl | rfl | rfl | rfl | rfl | rfl
  all_goals cases op
  all_goals first
    | exact absurd hName (by decide)
    | rfl

/-- Arithmetic on an integer variable with an integer variable as the operand. The command always succeeds,
and it changes nothing but the variable. What it stores there is computed from the operand rounded to 53
bits, and if that is not below `2 ^ 63`, as a double. So the results are exact, whatever the variable held,
exactly if the operand is a double and not the least integer. -/
theorem arithmetic_rounds {f : Int → Int → Int} (hCommand : c ∈ assignment) (hName : c.name = op.name)
    (hWhole : op.whole? = some f) {inv : Invocation} {p p' q : Progress} {target operand : String}
    (hTarget : Act.word inv p = .ok target p') (hOperand : Act.word inv p' = .ok operand q)
    {key source : VarKey} (hKey : VarKey.parse? target = some key) (hInt : key.type = .int)
    (hSource : VarKey.parse? operand = some source) {a b : Int64}
    (ha : q.value? inv key = some (.int a)) (hb : q.value? inv source = some (.int b))
    (hNonzero : op = .mod → b ≠ 0) :
    c.run inv p = .ok .success (q.store inv key (.int (stored f a b))) ∧
      (q.store inv key (.int (stored f a b))).value? inv key = some (.int (stored f a b)) ∧
      ((∀ n, stored f n b = Int64.ofInt (f n.toInt b.toInt)) ↔
        Decimal.nearest b.toInt = b.toInt ∧ b ≠ Int64.minValue) := by
  have hTable : (q.table? inv key.scope).isSome := by
    rw [Progress.value?, Option.map_eq_some_iff] at ha
    obtain ⟨vars, hVars, -⟩ := ha
    exact Option.isSome_of_eq_some hVars
  have hUpdate : update key op (.int b) inv q = .ok .success (q.store inv key (.int (stored f a b))) := by
    have hDivides : (op.divides && (ofInt64 b == 0)) = false := by
      cases op with
      | mod =>
          have hb' : b.toInt ≠ 0 := fun hZero => hNonzero rfl (Int64.toInt_inj.mp hZero)
          simp [(isInt_ofInt64 b).beq_zero, nearest_eq_zero_iff, hb']
      | add | sub | mul => rfl
      | div | pow | root => cases hWhole
    simp only [update, hInt, Value.asFloat, hDivides, if_false, Bool.false_eq_true, reduceCtorEq]
    rw [Act.bind_apply, Act.readKey_eq, ha]
    dsimp only [Option.getD_some]
    rw [assign_eq hTable, hInt, apply_ints hWhole hNonzero]
  refine ⟨?_, ?_, stored_exact_iff hWhole⟩
  · rw [run_of_name hCommand hName, runArithmetic, Act.bind_apply, hTarget]
    dsimp only
    rw [Act.bind_apply, hOperand]
    dsimp only
    rw [Act.bind_apply, writable?_of_parse? hKey]
    dsimp only
    rw [Act.bind_apply, operandValue_of_parse? hSource, hb]
    exact hUpdate
  · rw [Progress.value?_store_self hTable, hInt]
    rfl

/-- The two words of a sum. -/
def sumInvocation : Invocation :=
  { script := ⟨"sum", " #x #y".toList⟩, entity := ⟨0⟩, event := .fixed .init }

/-- A small integer, and the least positive one that is no double. -/
def sumStart : Progress :=
  ⟨⟨{ World.ofConfig {} with
      globals := (Variables.empty.set .int "x" (.int 1)).set .int "y" (.int 9007199254740993) },
    .silent, #[]⟩, 0, []⟩

/-- The sum misses the exact one by the last bit of the operand. -/
theorem arithmetic_rounds_sum :
    ∃ q, runArithmetic .add sumInvocation sumStart = .ok .success q ∧
      q.value? sumInvocation ⟨.global, .int, "x"⟩ = some (.int 9007199254740993) ∧
      Int64.ofInt (1 + 9007199254740993) = 9007199254740994 := by
  have hTarget : Act.word sumInvocation sumStart = .ok "#x" { sumStart with pos := 3 } := rfl
  have hOperand : Act.word sumInvocation { sumStart with pos := 3 } =
    .ok "#y" { sumStart with pos := 6 } := rfl
  have hStored : stored (· + ·) 1 9007199254740993 = 9007199254740993 := by decide +kernel
  obtain ⟨hRun, hValue, -⟩ := arithmetic_rounds (c := { name := "add", run := runArithmetic .add })
    (a := 1) (b := 9007199254740993) (by simp [assignment]) rfl
    (show Arithmetic.add.whole? = some (· + ·) from rfl) hTarget hOperand
    (show VarKey.parse? "#x" = some ⟨.global, .int, "x"⟩ from rfl) rfl
    (show VarKey.parse? "#y" = some ⟨.global, .int, "y"⟩ from rfl) rfl rfl nofun
  rw [hStored] at hRun hValue
  exact ⟨_, hRun, hValue, by decide +kernel⟩

end Command

end EntityScript
