import EntityScript.Value

/-!
A table of variables, ordered by type and then by name. Writing converts the value to the type of
its place, and reading a name that was never written gives the zero of the type.
-/

namespace EntityScript

/-- A stored variable. -/
structure Variable where
  type : VarType
  name : String
  value : Value
  deriving Repr

/-- Whether the place of one type and name comes before that of another. -/
def placedBefore (t : VarType) (name : String) (v : Variable) : Bool :=
  t.rank < v.type.rank || (t = v.type && name < v.name)

/-- A table of variables. -/
structure Variables where
  entries : List Variable
  deriving Repr

namespace Variables

/-- The table without variables. -/
def empty : Variables := ⟨[]⟩

/-- Whether a stored variable has the given type and name. -/
def isAt (t : VarType) (name : String) (v : Variable) : Bool := v.type = t && v.name = name

/-- The stored value of a name. -/
def get? (vars : Variables) (t : VarType) (name : String) : Option Value :=
  (vars.entries.find? (isAt t name)).map Variable.value

/-- The value of a name, the zero of its type if it was never written. -/
def value (vars : Variables) (t : VarType) (name : String) : Value :=
  (vars.get? t name).getD t.zero

/-- The text stored under a name. -/
def text (vars : Variables) (name : String) : String :=
  match vars.get? .text name with
  | some (.text s) => s
  | _ => ""

/-- The integer stored under a name. -/
def int (vars : Variables) (name : String) : Int64 :=
  match vars.get? .int name with
  | some v => v.asInt
  | none => 0

/-- The double stored under a name. -/
def float (vars : Variables) (name : String) : Float :=
  match vars.get? .float name with
  | some v => v.asFloat
  | none => 0

/-- Puts a variable into its place, instead of one that has the same type and name. -/
def insertEntry (new : Variable) : List Variable → List Variable
  | [] => [new]
  | v :: vs =>
    if isAt new.type new.name v then new :: vs
    else if placedBefore new.type new.name v then new :: v :: vs
    else v :: insertEntry new vs

/-- Writes a value, converted to the type. -/
def set (vars : Variables) (t : VarType) (name : String) (v : Value) : Variables :=
  ⟨insertEntry ⟨t, name, v.coerce t⟩ vars.entries⟩

/-- Writes a value under a key. -/
def setKey (vars : Variables) (key : VarKey) (v : Value) : Variables := vars.set key.type key.name v

/-- Removes a variable. -/
def erase (vars : Variables) (t : VarType) (name : String) : Variables :=
  ⟨vars.entries.filter fun v => !isAt t name v⟩

/-- Whether a variable was written. -/
def contains (vars : Variables) (t : VarType) (name : String) : Bool := (vars.get? t name).isSome

/-- The number of variables. -/
def size (vars : Variables) : Nat := vars.entries.length

/-- The key of a stored variable. -/
def keyOf (scope : Scope) (v : Variable) : VarKey := ⟨scope, v.type, v.name⟩

/-- Puts a name and its value into a list that is ordered by name. -/
def insertNamed (name : String) (value : Value) : List (String × Value) → List (String × Value)
  | [] => [(name, value)]
  | (n, v) :: rest =>
    if n = name then (name, value) :: rest
    else if name < n then (name, value) :: (n, v) :: rest
    else (n, v) :: insertNamed name value rest

/-- The variables by the names that scripts write, ordered by name. -/
def snapshot (vars : Variables) (scope : Scope) : List (String × Value) :=
  vars.entries.foldl (fun acc v => insertNamed (keyOf scope v).spelled v.value acc) []

end Variables

end EntityScript
