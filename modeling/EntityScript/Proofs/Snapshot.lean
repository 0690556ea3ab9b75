import EntityScript.Proofs.Keyed
import EntityScript.Proofs.Leads
import EntityScript.Request
import Mathlib.Data.List.Sort

/-! Tables of variables are ordered, and every value has the type of its place. So a snapshot tells all
of a table: what it holds under a name is what the table holds under the key that the name spells, and
writing the snapshot of the global variables gives the table back. -/
namespace EntityScript

namespace Variable

variable {u v w : Variable}

/-- Where a variable is stored. -/
def place (v : Variable) : VarType × String := (v.type, v.name)

/-- The order of the variables in a table. -/
def Before (v w : Variable) : Prop := placedBefore v.type v.name w = true

theorem before_iff :
    v.Before w ↔ v.type.rank < w.type.rank ∨ v.type = w.type ∧ v.name < w.name := by
  simp only [Before, placedBefore, Bool.or_eq_true, Bool.and_eq_true, decide_eq_true_eq]

theorem rank_injective : Function.Injective VarType.rank := fun t t' => by
  cases t <;> cases t' <;> decide

theorem Before.trans (h : u.Before v) (h' : v.Before w) : u.Before w := by
  rw [before_iff] at *
  rcases h with hLess | ⟨hType, hLess⟩ <;> rcases h' with hLess' | ⟨hType', hLess'⟩
  · exact .inl (Nat.lt_trans hLess hLess')
  · exact .inl (hType' ▸ hLess)
  · exact .inl (hType ▸ hLess')
  · exact .inr ⟨hType.trans hType', String.lt_trans hLess hLess'⟩

theorem Before.place_ne (h : v.Before w) : v.place ≠ w.place := by
  intro hPlace
  obtain ⟨hType, hName⟩ := Prod.mk.inj hPlace
  rcases before_iff.mp h with hLess | ⟨-, hLess⟩
  · exact Nat.lt_irrefl _ (hType ▸ hLess)
  · exact String.lt_irrefl _ (hName ▸ hLess)

theorem before_or_after (h : v.place ≠ w.place) : v.Before w ∨ w.Before v := by
  rw [before_iff, before_iff]
  rcases Nat.lt_trichotomy v.type.rank w.type.rank with hLess | hRank | hLess
  · exact .inl (.inl hLess)
  · have hType := rank_injective hRank
    by_cases hName : v.name < w.name
    · exact .inl (.inr ⟨hType, hName⟩)
    · refine .inr (.inr ⟨hType.symm, ?_⟩)
      by_contra hNot
      exact h (Prod.ext hType (String.le_antisymm (String.not_lt.mp hNot) (String.not_lt.mp hName)))
  · exact .inr (.inl hLess)

instance : Std.Irrefl Before := ⟨fun _ h => h.place_ne rfl⟩

instance : Std.Antisymm Before := ⟨fun _ _ h h' => absurd rfl (h.trans h').place_ne⟩

end Variable

namespace Variables

variable {vars vars' : Variables} {t : VarType} {name : String} {x : Value}

theorem isAt_iff {v : Variable} : isAt t name v = true ↔ v.place = (t, name) := by
  rw [isAt, Bool.and_eq_true, decide_eq_true_eq, decide_eq_true_eq, Variable.place, Prod.mk.injEq]

/-- What becomes of a table whose variables have names. -/
inductive Step : Variables → Variables → Prop where
  | set (vars : Variables) (t : VarType) {name : String} (hName : name ≠ "") (x : Value) :
      Step vars (vars.set t name x)
  | setKey (vars : Variables) {key : VarKey} (hName : key.name ≠ "") (x : Value) :
      Step vars (vars.setKey key x)
  | erase (vars : Variables) (t : VarType) (name : String) : Step vars (vars.erase t name)
  | clear (vars : Variables) : Step vars .empty

/-- The variables are in order, each once, and each has a name and a value of its type. -/
structure Sound (vars : Variables) : Prop where
  sorted : vars.entries.Pairwise Variable.Before
  typed : ∀ v ∈ vars.entries, v.value.type = v.type
  named : ∀ v ∈ vars.entries, v.name ≠ ""

theorem sound_empty : empty.Sound := ⟨.nil, List.forall_mem_nil _, List.forall_mem_nil _⟩

/-- A variable replaces the one in its place. -/
theorem mem_insertEntry {new v : Variable} {vs : List Variable} (h : vs.Pairwise Variable.Before) :
    v ∈ insertEntry new vs ↔ v = new ∨ v ∈ vs ∧ v.place ≠ new.place := by
  induction vs with
  | nil => simp [insertEntry]
  | cons w vs ih =>
      obtain ⟨hFirst, hRest⟩ := List.pairwise_cons.mp h
      unfold insertEntry
      split
      · rename_i hAt
        have hPlace : w.place = new.place := isAt_iff.mp hAt
        have hOther (hv : v ∈ vs) : v.place ≠ new.place := hPlace ▸ (hFirst v hv).place_ne.symm
        rw [List.mem_cons, List.mem_cons]
        refine or_congr_right ⟨fun hv => ⟨.inr hv, hOther hv⟩, ?_⟩
        rintro ⟨rfl | hv, hNot⟩
        · exact absurd hPlace hNot
        · exact hv
      · rename_i hAt
        have hPlace : w.place ≠ new.place := fun hPlace => hAt (isAt_iff.mpr hPlace)
        split
        · rename_i hBefore
          have hOther (hv : v ∈ w :: vs) : v.place ≠ new.place := by
            rcases List.mem_cons.mp hv with rfl | hv
            · exact hPlace
            · exact (Variable.Before.trans hBefore (hFirst v hv)).place_ne.symm
          rw [List.mem_cons]
          exact or_congr_right ⟨fun hv => ⟨hv, hOther hv⟩, And.left⟩
        · rw [List.mem_cons, ih hRest, List.mem_cons]
          constructor
          · rintro (rfl | rfl | ⟨hv, hNot⟩)
            · exact .inr ⟨.inl rfl, hPlace⟩
            · exact .inl rfl
            · exact .inr ⟨.inr hv, hNot⟩
          · rintro (rfl | ⟨rfl | hv, hNot⟩)
            · exact .inr (.inl rfl)
            · exact .inl rfl
            · exact .inr (.inr ⟨hv, hNot⟩)

theorem insertEntry_sorted (new : Variable) {vs : List Variable}
    (h : vs.Pairwise Variable.Before) : (insertEntry new vs).Pairwise Variable.Before := by
  induction vs with
  | nil => exact List.pairwise_singleton _ _
  | cons w vs ih =>
      obtain ⟨hFirst, hRest⟩ := List.pairwise_cons.mp h
      unfold insertEntry
      split
      · rename_i hAt
        have hPlace : w.place = new.place := isAt_iff.mp hAt
        obtain ⟨hType, hName⟩ := Prod.mk.inj hPlace
        refine List.pairwise_cons.mpr ⟨fun v hv => ?_, hRest⟩
        have hBefore := Variable.before_iff.mp (hFirst v hv)
        rw [hType, hName] at hBefore
        exact Variable.before_iff.mpr hBefore
      · rename_i hAt
        have hPlace : w.place ≠ new.place := fun hPlace => hAt (isAt_iff.mpr hPlace)
        split
        · rename_i hBefore
          refine List.pairwise_cons.mpr ⟨fun v hv => ?_, h⟩
          rcases List.mem_cons.mp hv with rfl | hv
          · exact hBefore
          · exact Variable.Before.trans hBefore (hFirst v hv)
        · rename_i hNot
          have hAfter : w.Before new := (Variable.before_or_after hPlace).resolve_right hNot
          refine List.pairwise_cons.mpr ⟨fun v hv => ?_, ih hRest⟩
          rcases (mem_insertEntry hRest).mp hv with rfl | ⟨hv, -⟩
          · exact hAfter
          · exact hFirst v hv

namespace Sound

theorem set (h : vars.Sound) (t : VarType) (hName : name ≠ "") (x : Value) :
    (vars.set t name x).Sound := by
  refine ⟨insertEntry_sorted _ h.sorted, fun v hv => ?_, fun v hv => ?_⟩ <;>
    rcases (mem_insertEntry h.sorted).mp hv with rfl | ⟨hOld, -⟩
  · exact Value.type_coerce x t
  · exact h.typed v hOld
  · exact hName
  · exact h.named v hOld

theorem erase (h : vars.Sound) (t : VarType) (name : String) : (vars.erase t name).Sound := by
  have hGoes : (vars.erase t name).entries.Sublist vars.entries := List.filter_sublist
  exact ⟨h.sorted.sublist hGoes, fun v hv => h.typed v (hGoes.subset hv),
    fun v hv => h.named v (hGoes.subset hv)⟩

theorem step (h : vars.Sound) (hStep : vars.Step vars') : vars'.Sound := by
  cases hStep with
  | set t hName x => exact h.set t hName x
  | setKey hName x => exact h.set _ hName x
  | erase t name => exact h.erase t name
  | clear => exact sound_empty

theorem nodup (h : vars.Sound) : (vars.entries.map Variable.place).Nodup :=
  List.pairwise_map.mpr (h.sorted.imp fun hBefore => hBefore.place_ne)

/-- What a table holds is what is read from it. -/
theorem get?_eq_some_iff (h : vars.Sound) :
    vars.get? t name = some x ↔ ⟨t, name, x⟩ ∈ vars.entries := by
  have hAt : isAt t name = fun v => decide (v.place = (t, name)) :=
    funext fun v => Bool.eq_iff_iff.mpr (isAt_iff.trans decide_eq_true_iff.symm)
  rw [get?, hAt, Option.map_eq_some_iff]
  constructor
  · rintro ⟨v, hFind, rfl⟩
    obtain ⟨hMem, hPlace⟩ := (find?_key_eq_some_iff h.nodup).mp hFind
    obtain ⟨rfl, rfl⟩ := Prod.mk.inj hPlace
    exact hMem
  · intro hMem
    exact ⟨_, (find?_key_eq_some_iff h.nodup).mpr ⟨hMem, rfl⟩, rfl⟩

theorem type_of_get? (h : vars.Sound) (hGet : vars.get? t name = some x) : x.type = t :=
  h.typed _ (h.get?_eq_some_iff.mp hGet)

/-- The readings of each type tell what is stored, unchanged. -/
theorem value_eq (h : vars.Sound) (name : String) :
    vars.value .text name = .text (vars.text name) ∧ vars.value .int name = .int (vars.int name) ∧
      vars.value .float name = .float (vars.float name) := by
  refine ⟨?_, ?_, ?_⟩
  · unfold value text
    cases hGet : vars.get? .text name with
    | none => rfl
    | some x =>
        match x, h.type_of_get? hGet with
        | .text s, _ => rfl
  · unfold value int
    cases hGet : vars.get? .int name with
    | none => rfl
    | some x =>
        match x, h.type_of_get? hGet with
        | .int n, _ => rfl
  · unfold value float
    cases hGet : vars.get? .float name with
    | none => rfl
    | some x =>
        match x, h.type_of_get? hGet with
        | .float y, _ => rfl

/-- Writing variables anew puts each of them into the table, whatever their order. -/
theorem rewritten (h : vars.Sound) {vs : List Variable} (hTyped : ∀ v ∈ vs, v.value.type = v.type)
    (hNamed : ∀ v ∈ vs, v.name ≠ "") (hOnce : (vs.map Variable.place).Nodup)
    (hNew : ∀ v ∈ vs, ∀ u ∈ vars.entries, u.place ≠ v.place) :
    (vs.foldl (fun vars v => vars.set v.type v.name v.value) vars).Sound ∧
      ∀ u, u ∈ (vs.foldl (fun vars v => vars.set v.type v.name v.value) vars).entries ↔
        u ∈ vars.entries ∨ u ∈ vs := by
  induction vs generalizing vars with
  | nil => exact ⟨h, fun u => by simp⟩
  | cons v vs ih =>
      obtain ⟨hNewV, hNewRest⟩ := List.forall_mem_cons.mp hNew
      obtain ⟨hFresh, hOnceRest⟩ := List.nodup_cons.mp hOnce
      have hEntries (u : Variable) :
          u ∈ (vars.set v.type v.name v.value).entries ↔ u = v ∨ u ∈ vars.entries := by
        have hSame : (⟨v.type, v.name, v.value.coerce v.type⟩ : Variable) = v := by
          rw [← hTyped v List.mem_cons_self, Value.coerce_type, hTyped v List.mem_cons_self]
        rw [Variables.set, hSame, mem_insertEntry h.sorted]
        exact or_congr_right ⟨And.left, fun hu => ⟨hu, hNewV u hu⟩⟩
      obtain ⟨hSound, hMem⟩ := ih (h.set v.type (hNamed v List.mem_cons_self) v.value)
        (fun w hw => hTyped w (List.mem_cons_of_mem _ hw))
        (fun w hw => hNamed w (List.mem_cons_of_mem _ hw)) hOnceRest fun w hw u hu => by
          rcases (hEntries u).mp hu with rfl | hOld
          · exact fun hPlace => hFresh (hPlace ▸ List.mem_map_of_mem hw)
          · exact hNewRest w hw u hOld
      refine ⟨hSound, fun u => (hMem u).trans ?_⟩
      rw [hEntries, List.mem_cons, or_comm (a := u = v), or_assoc]

/-- A table is given back by its variables. -/
theorem rewritten_self (h : vars.Sound) {vs : List Variable} (hPerm : vs.Perm vars.entries) :
    vs.foldl (fun vars v => vars.set v.type v.name v.value) empty = vars := by
  obtain ⟨hSound, hMem⟩ := sound_empty.rewritten (fun v hv => h.typed v (hPerm.subset hv))
    (fun v hv => h.named v (hPerm.subset hv)) ((hPerm.map _).nodup_iff.mpr h.nodup)
    fun _ _ u hu => absurd hu List.not_mem_nil
  have hEntries := hSound.sorted.eq_of_mem_iff h.sorted fun u =>
    (hMem u).trans ((or_iff_right List.not_mem_nil).trans hPerm.mem_iff)
  exact congrArg Variables.mk hEntries

end Sound

/-- A variable as a snapshot shows it. -/
def shown (scope : Scope) (v : Variable) : String × Value := ((keyOf scope v).spelled, v.value)

/-- Variables of one scope that are shown under one name are in one place. -/
theorem place_eq_of_spelled_eq {scope : Scope} {v w : Variable}
    (h : (keyOf scope v).spelled = (keyOf scope w).spelled) : v.place = w.place := by
  have hText := String.ofList_injective h
  obtain ⟨hSigil, hName⟩ := List.cons.inj hText
  have hKind := congrArg sigilKind? hSigil
  rw [sigilKind?_sigilOf, sigilKind?_sigilOf] at hKind
  exact Prod.ext (Prod.mk.inj (Option.some.inj hKind)).2 (String.toList_injective hName)

theorem insertNamed_shown (scope : Scope) (v : Variable) {vs : List Variable}
    (hNew : ∀ w ∈ vs, w.place ≠ v.place) :
    ∃ ws : List Variable, ws.Perm (v :: vs) ∧
      insertNamed (keyOf scope v).spelled v.value (vs.map (shown scope)) = ws.map (shown scope) := by
  induction vs with
  | nil => exact ⟨[v], .refl _, rfl⟩
  | cons w vs ih =>
      obtain ⟨hOther, hRest⟩ := List.forall_mem_cons.mp hNew
      obtain ⟨ws, hPerm, hShown⟩ := ih hRest
      rw [List.map_cons, shown, insertNamed, if_neg fun hSame => hOther (place_eq_of_spelled_eq hSame)]
      split
      · exact ⟨v :: w :: vs, .refl _, rfl⟩
      · exact ⟨w :: ws, (hPerm.cons w).trans (.swap v w vs), by rw [hShown]; rfl⟩

theorem mem_insertNamed {name n : String} {x : Value} {l : List (String × Value)}
    (h : n ∈ (insertNamed name x l).map Prod.fst) : n = name ∨ n ∈ l.map Prod.fst := by
  induction l with
  | nil => exact .inl (List.mem_singleton.mp h)
  | cons y l ih =>
      unfold insertNamed at h
      split at h
      · exact (List.mem_cons.mp h).imp_right (List.mem_cons_of_mem _)
      · split at h
        · exact List.mem_cons.mp h
        · rcases List.mem_cons.mp h with rfl | hRest
          · exact .inr List.mem_cons_self
          · exact (ih hRest).imp_right (List.mem_cons_of_mem _)

theorem insertNamed_sorted (name : String) (x : Value) {l : List (String × Value)}
    (h : (l.map Prod.fst).Pairwise (· < ·)) :
    ((insertNamed name x l).map Prod.fst).Pairwise (· < ·) := by
  induction l with
  | nil => exact List.pairwise_singleton _ _
  | cons y l ih =>
      obtain ⟨hFirst, hRest⟩ := List.pairwise_cons.mp h
      unfold insertNamed
      split
      · rename_i hSame
        exact List.pairwise_cons.mpr ⟨hSame ▸ hFirst, hRest⟩
      · rename_i hOther
        split
        · rename_i hLess
          refine List.pairwise_cons.mpr ⟨fun n hn => ?_, h⟩
          rcases List.mem_cons.mp hn with rfl | hLater
          · exact hLess
          · exact String.lt_trans hLess (hFirst n hLater)
        · rename_i hNot
          have hLess : y.1 < name := String.not_le.mp fun hLe =>
            hOther (String.le_antisymm (String.not_lt.mp hNot) hLe)
          refine List.pairwise_cons.mpr ⟨fun n hn => ?_, ih hRest⟩
          rcases mem_insertNamed hn with rfl | hLater
          · exact hLess
          · exact hFirst n hLater

/-- The variables that are left are put among those that the list shows already. -/
theorem foldl_insertNamed_shown (scope : Scope) (vs seen : List Variable)
    (hOnce : ((seen ++ vs).map Variable.place).Nodup)
    (hSorted : ((seen.map (shown scope)).map Prod.fst).Pairwise (· < ·)) :
    ∃ ws : List Variable, ws.Perm (seen ++ vs) ∧
      vs.foldl (fun acc v => insertNamed (keyOf scope v).spelled v.value acc)
        (seen.map (shown scope)) = ws.map (shown scope) ∧
      ((ws.map (shown scope)).map Prod.fst).Pairwise (· < ·) := by
  induction vs generalizing seen with
  | nil => exact ⟨seen, by rw [List.append_nil], rfl, hSorted⟩
  | cons v vs ih =>
      have hNew : ∀ w ∈ seen, w.place ≠ v.place := by
        rw [List.map_append] at hOnce
        intro w hw
        exact (List.nodup_append.mp hOnce).2.2 _ (List.mem_map_of_mem hw) _ List.mem_cons_self
      obtain ⟨ws, hPerm, hShown⟩ := insertNamed_shown scope v hNew
      have hAll : (ws ++ vs).Perm (seen ++ v :: vs) :=
        (hPerm.append_right vs).trans List.perm_middle.symm
      obtain ⟨us, hPerm', hShown', hSorted'⟩ := ih ws ((hAll.map _).nodup_iff.mpr hOnce)
        (hShown ▸ insertNamed_sorted _ _ hSorted)
      exact ⟨us, hPerm'.trans hAll, by rw [List.foldl_cons, hShown, hShown'], hSorted'⟩

/-- A snapshot shows each variable once, ordered by name. -/
theorem Sound.snapshot_shown (h : vars.Sound) (scope : Scope) :
    (∃ ws : List Variable, ws.Perm vars.entries ∧ vars.snapshot scope = ws.map (shown scope)) ∧
      ((vars.snapshot scope).map Prod.fst).Pairwise (· < ·) := by
  obtain ⟨ws, hPerm, hShown, hSorted⟩ := foldl_insertNamed_shown scope vars.entries [] h.nodup .nil
  refine ⟨⟨ws, hPerm, hShown⟩, ?_⟩
  rw [show vars.snapshot scope = ws.map (shown scope) from hShown]
  exact hSorted

/-- A list in another order than variables are shown in shows them in another order. -/
theorem shown_of_perm {scope : Scope} {l : List (String × Value)} {vs : List Variable}
    (h : l.Perm (vs.map (shown scope))) :
    ∃ ws : List Variable, ws.Perm vs ∧ l = ws.map (shown scope) := by
  induction vs generalizing l with
  | nil => exact ⟨[], .refl _, h.eq_nil⟩
  | cons v vs ih =>
      obtain ⟨front, back, rfl⟩ := List.append_of_mem (h.symm.subset List.mem_cons_self)
      obtain ⟨ws, hPerm, hRest⟩ := ih (List.perm_middle.symm.trans h).cons_inv
      obtain ⟨before, after, rfl, rfl, rfl⟩ := List.append_eq_map_iff.mp hRest
      exact ⟨before ++ v :: after, List.perm_middle.trans (hPerm.cons v), by simp⟩

/-- Writing variables under the names that a snapshot shows. -/
theorem foldlM_setGlobal {vs : List Variable} (hNamed : ∀ v ∈ vs, v.name ≠ "") (w : World) :
    (vs.map (shown .global)).foldlM (fun w x => w.setGlobal x.1 x.2) w =
      .ok { w with globals := vs.foldl (fun vars v => vars.set v.type v.name v.value) w.globals } := by
  induction vs generalizing w with
  | nil => rfl
  | cons v vs ih =>
      obtain ⟨hName, hRest⟩ := List.forall_mem_cons.mp hNamed
      have hKey : scopedKey? .global (keyOf .global v).spelled = some (keyOf .global v) := by
        rw [scopedKey?, VarKey.parse?_spelled hName]
        rfl
      have hFirst : w.setGlobal (keyOf .global v).spelled v.value =
          .ok { w with globals := w.globals.set v.type v.name v.value } := by
        rw [World.setGlobal, hKey]
        rfl
      rw [List.map_cons, List.foldlM_cons, shown, hFirst]
      exact ih hRest _

/-- Every value has the type of its key, so the readings of each type tell what is stored. A snapshot
shows every variable once and under a name that spells its key, and nothing else. Writing what the
snapshot of the global variables shows, in any order, gives the table back. -/
theorem snapshot_lossless (run : Leads Step empty vars) :
    (∀ t name x, vars.get? t name = some x → x.type = t) ∧
      (∀ name, vars.value .text name = .text (vars.text name) ∧
        vars.value .int name = .int (vars.int name) ∧
        vars.value .float name = .float (vars.float name)) ∧
      (∀ scope, ((vars.snapshot scope).map Prod.fst).Pairwise (· < ·) ∧
        (vars.snapshot scope).length = vars.size ∧
        ∀ name x, (name, x) ∈ vars.snapshot scope ↔
          ∃ key, VarKey.parse? name = some key ∧ key.scope = scope ∧ key.spelled = name ∧
            vars.get? key.type key.name = some x) ∧
      ∀ (w : World) (written : List (String × Value)), w.globals = empty → written.Perm (vars.snapshot .global) →
        written.foldlM (fun w x => w.setGlobal x.1 x.2) w = .ok { w with globals := vars } := by
  have hSound : vars.Sound := run.keeps Sound.step sound_empty
  refine ⟨fun t name x => hSound.type_of_get?, hSound.value_eq, fun scope => ?_,
    fun w written hFresh hWritten => ?_⟩
  · obtain ⟨⟨ws, hPerm, hShown⟩, hSorted⟩ := hSound.snapshot_shown scope
    refine ⟨hSorted, ?_, fun name x => ?_⟩
    · rw [hShown, List.length_map, hPerm.length_eq, size]
    · rw [hShown, List.mem_map]
      constructor
      · rintro ⟨v, hv, hSame⟩
        obtain ⟨rfl, rfl⟩ := Prod.mk.inj hSame
        have hStored := hPerm.subset hv
        exact ⟨keyOf scope v, VarKey.parse?_spelled (hSound.named v hStored), rfl, rfl,
          hSound.get?_eq_some_iff.mpr hStored⟩
      · rintro ⟨key, -, rfl, rfl, hGet⟩
        exact ⟨_, hPerm.symm.subset (hSound.get?_eq_some_iff.mp hGet), rfl⟩
  · obtain ⟨⟨vs, hPerm, hShown⟩, -⟩ := hSound.snapshot_shown .global
    obtain ⟨ws, hOrder, rfl⟩ := shown_of_perm (hShown ▸ hWritten)
    have hAll := hOrder.trans hPerm
    rw [foldlM_setGlobal (fun v hv => hSound.named v (hAll.subset hv)), hFresh,
      hSound.rewritten_self hAll]

/-- Variables of one name in two types. -/
def tally : Variables :=
  ((empty.set .text "hits" (.text "many")).setKey ⟨.global, .int, "hits"⟩ (.int 3)).erase .int "misses"

theorem snapshot_lossless_tally :
    Leads Step empty tally ∧ tally.value .int "hits" = .int (tally.int "hits") ∧
      ("£hits", .text "many") ∈ tally.snapshot .local ∧
      (tally.snapshot .global).foldlM (fun w x => w.setGlobal x.1 x.2) (World.ofConfig {}) =
        .ok { World.ofConfig {} with globals := tally } := by
  have run : Leads Step empty tally :=
    ((Leads.refl.tail (.set _ _ (by decide) _)).tail (.setKey _ (by decide) _)).tail (.erase _ _ _)
  obtain ⟨-, hRead, hShown, hWritten⟩ := snapshot_lossless run
  exact ⟨run, (hRead "hits").2.1, ((hShown .local).2.2 _ _).mpr
    ⟨⟨.local, .text, "hits"⟩, by decide, rfl, by decide, rfl⟩, hWritten _ _ rfl (.refl _)⟩

end Variables

end EntityScript
