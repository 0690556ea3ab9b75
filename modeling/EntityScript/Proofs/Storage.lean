import EntityScript.Command.Assignment
import EntityScript.Proofs.TwinRuns

/-! What acts read from variables and write to them. A written variable holds what was written, in the
type of its key, and no other variable is touched. -/
namespace EntityScript

theorem EntityTable.get?_modify_self (t : EntityTable) (id : EntityId) (f : Entity → Entity) :
    (t.modify id f).get? id = (t.get? id).map f := by
  obtain ⟨members, next, counts⟩ := t
  simp only [EntityTable.get?, EntityTable.modify]
  induction members with
  | nil => rfl
  | cons m ms ih =>
      by_cases hId : m.1 = id
      · simp [hId]
      · simpa [hId] using ih

namespace Variables

/-- Writing replaces what is found in one place and nothing else. -/
theorem find?_insertEntry (new : Variable) (vs : List Variable) (t : VarType) (name : String) :
    (insertEntry new vs).find? (isAt t name) =
      if isAt t name new then some new else vs.find? (isAt t name) := by
  induction vs with
  | nil => by_cases hAt : isAt t name new <;> simp [insertEntry, hAt]
  | cons v vs ih =>
      rw [insertEntry]
      by_cases hAt : isAt new.type new.name v
      · -- A variable in the place of the new one is found exactly if the new one is.
        have hSame : isAt t name v = isAt t name new := by
          simp only [isAt, Bool.and_eq_true, decide_eq_true_eq] at hAt ⊢
          rw [hAt.1, hAt.2]
        rw [if_pos hAt]
        by_cases hFound : isAt t name new <;> simp [hFound, hSame]
      · rw [if_neg hAt]
        by_cases hBefore : placedBefore new.type new.name v
        · by_cases hFound : isAt t name new <;> simp [hBefore, hFound]
        · have hApart (hFound : isAt t name new = true) : isAt t name v = false := by
            obtain ⟨rfl, rfl⟩ : new.type = t ∧ new.name = name := by simpa [isAt] using hFound
            exact Bool.eq_false_iff.mpr hAt
          by_cases hFound : isAt t name new
          · simp [hBefore, hFound, hApart, ih]
          · by_cases hOther : isAt t name v <;> simp [hBefore, hFound, hOther, ih]

theorem get?_set (vars : Variables) (t t' : VarType) (name name' : String) (v : Value) :
    (vars.set t name v).get? t' name' =
      if t' = t ∧ name' = name then some (v.coerce t) else vars.get? t' name' := by
  have hAt : isAt t' name' ⟨t, name, v.coerce t⟩ = true ↔ t' = t ∧ name' = name := by
    rw [isAt, Bool.and_eq_true, decide_eq_true_eq, decide_eq_true_eq, eq_comm, @eq_comm _ name]
  rw [get?, set, find?_insertEntry]
  by_cases hSame : t' = t ∧ name' = name
  · rw [if_pos (hAt.mpr hSame), if_pos hSame]
    rfl
  · rw [if_neg (mt hAt.mp hSame), if_neg hSame]
    rfl

theorem value_setKey_self (vars : Variables) (key : VarKey) (v : Value) :
    (vars.setKey key v).value key.type key.name = v.coerce key.type := by
  simp [setKey, value, get?_set]

theorem value_setKey_other (vars : Variables) {key : VarKey} (v : Value) {t : VarType} {name : String}
    (h : ¬ (t = key.type ∧ name = key.name)) :
    (vars.setKey key v).value t name = vars.value t name := by
  simp [setKey, value, get?_set, h]

end Variables

namespace Progress

variable {inv : Invocation} {p : Progress} {key other : VarKey} {v : Value}

/-- The table of a scope, seen from the entity that the script runs for. -/
def table? (inv : Invocation) (p : Progress) : Scope → Option Variables
  | .global => some p.session.world.globals
  | .local => (p.session.world.entities.get? inv.entity).map Entity.locals

/-- The value of a variable, if its table exists. -/
def value? (inv : Invocation) (p : Progress) (key : VarKey) : Option Value :=
  (p.table? inv key.scope).map (·.value key.type key.name)

/-- The progress with a value written to a variable. -/
def store (inv : Invocation) (key : VarKey) (v : Value) (p : Progress) : Progress :=
  { p with session := p.session.onWorld fun w =>
      match key.scope with
      | .global => { w with globals := w.globals.setKey key v }
      | .local =>
        { w with entities := w.entities.modify inv.entity fun e =>
            { e with locals := e.locals.setKey key v } } }

theorem table?_store (inv : Invocation) (p : Progress) (key : VarKey) (v : Value) (scope : Scope) :
    (p.store inv key v).table? inv scope =
      (p.table? inv scope).map fun vars => if scope = key.scope then vars.setKey key v else vars := by
  obtain ⟨keyScope, t, name⟩ := key
  cases keyScope <;> cases scope <;> simp [store, table?, Session.onWorld,
    EntityTable.get?_modify_self, Option.map_map, Function.comp_def]

/-- A written variable holds the value in its type. -/
theorem value?_store_self (h : (p.table? inv key.scope).isSome) :
    (p.store inv key v).value? inv key = some (v.coerce key.type) := by
  obtain ⟨vars, hTable⟩ := Option.isSome_iff_exists.mp h
  simp [value?, table?_store, hTable, Variables.value_setKey_self]

/-- The other variables keep their values. -/
theorem value?_store_other (h : other ≠ key) :
    (p.store inv key v).value? inv other = p.value? inv other := by
  rw [value?, table?_store, value?, Option.map_map]
  congr 1
  funext vars
  dsimp only [Function.comp]
  by_cases hScope : other.scope = key.scope
  · rw [if_pos hScope]
    refine Variables.value_setKey_other vars v ?_
    rintro ⟨hType, hName⟩
    cases key
    cases other
    simp_all
  · rw [if_neg hScope]

end Progress

namespace Act

variable {inv : Invocation} {p : Progress} {key : VarKey} {word : String}

theorem table?_eq (inv : Invocation) (p : Progress) (scope : Scope) :
    Act.table? scope inv p = .ok (p.table? inv scope) p := by
  cases scope <;> rfl

theorem readKey_eq (inv : Invocation) (p : Progress) (key : VarKey) :
    readKey key inv p = .ok ((p.value? inv key).getD key.type.zero) p := by
  rw [readKey, bind_apply, table?_eq]
  rfl

/-- Writing succeeds where the table exists, and otherwise changes nothing. -/
theorem writeVar_eq (inv : Invocation) (p : Progress) (key : VarKey) (v : Value) :
    writeVar key v inv p =
      if (p.table? inv key.scope).isSome then .ok true (p.store inv key v) else .ok false p := by
  obtain ⟨scope, t, name⟩ := key
  cases scope with
  | global => rfl
  | «local» =>
      have hTable : (p.table? inv .local).isSome = p.session.world.entities.contains inv.entity := by
        rw [EntityTable.contains_eq, Progress.table?, Option.isSome_map]
      rw [writeVar, onTable, onSelf, invocation_bind, world_bind, hTable]
      by_cases hLive : p.session.world.entities.contains inv.entity
      · simp only [hLive, if_true]
        rfl
      · simp only [hLive]
        rfl

/-- A word that names a stored variable names no system variable. -/
theorem not_isSystemName (h : VarKey.parse? word = some key) : isSystemName word = false := by
  rw [VarKey.parse?] at h
  split at h
  · rename_i c d cs hWord
    simp only [isSystemName, hWord, List.head?_cons, Option.some.injEq, decide_eq_false_iff_not]
    rintro rfl
    cases h
  · cases h

theorem readVar_of_parse? (h : VarKey.parse? word = some key) (inv : Invocation) (p : Progress) :
    readVar word inv p = .ok ((p.value? inv key).getD key.type.zero) p := by
  rw [readVar, not_isSystemName h, h]
  exact readKey_eq inv p key

end Act

namespace Command

variable {inv : Invocation} {p : Progress} {key : VarKey} {word : String}

theorem writable?_of_parse? (h : VarKey.parse? word = some key) (inv : Invocation) (p : Progress) :
    writable? word inv p = .ok (some key) p := by
  rw [writable?, Act.not_isSystemName h, h]
  rfl

theorem operandValue_of_parse? (h : VarKey.parse? word = some key) (type : VarType) (inv : Invocation)
    (p : Progress) :
    operandValue word type inv p = .ok ((p.value? inv key).getD key.type.zero) p := by
  have hReference : isReference word = true := by rw [isReference, h, Option.isSome_some, Bool.or_true]
  rw [operandValue, if_pos hReference]
  exact Act.readVar_of_parse? h inv p

/-- Assigning to a variable whose table exists. -/
theorem assign_eq (hTable : (p.table? inv key.scope).isSome) (v : Value) :
    assign key v inv p = .ok .success (p.store inv key (v.coerce key.type)) := by
  rw [assign, Act.bind_apply, Act.writeVar_eq, if_pos hTable]
  rfl

end Command

end EntityScript
