import EntityScript.Proofs.Heartbeat
import EntityScript.Proofs.Keyed

/-! The names of entities. Handles count up and are never given again, and the numbers of a class count
up with every entity of the class that is spawned. A name ends with the number, behind its last
underscore, so it tells class and number, whatever the class is called. -/
namespace EntityScript

namespace Decimal

theorem ofDigitChars_paddedDigits (least n : Nat) :
    Nat.ofDigitChars 10 (paddedDigits least n) 0 = n := by
  rw [paddedDigits, Nat.ofDigitChars_append, Nat.ofDigitChars_replicate_zero, Nat.mul_zero,
    Nat.ofDigitChars_ten_toDigits]

/-- The digits tell the number, however many zeros stand before them. -/
theorem paddedDigits_injective (least : Nat) : Function.Injective (paddedDigits least) :=
  Function.LeftInverse.injective (ofDigitChars_paddedDigits least)

theorem underscore_notMem_paddedDigits (least n : Nat) : '_' ∉ paddedDigits least n := by
  intro h
  rcases List.mem_append.mp h with hZero | hDigit
  · exact absurd (List.eq_of_mem_replicate hZero) (by decide)
  · exact Nat.underscore_not_in_toDigits hDigit

end Decimal

/-- What stands before and behind the last occurrence of an entry. -/
theorem append_cons_inj_of_notMem_tail {α : Type} {a : α} {front front' back back' : List α}
    (h : a ∉ back) (h' : a ∉ back') (hSame : front ++ a :: back = front' ++ a :: back') :
    front = front' ∧ back = back' := by
  rcases List.append_eq_append_iff.mp hSame with ⟨as, rfl, hBack⟩ | ⟨as, rfl, hBack⟩
  · cases as with
    | nil => exact ⟨(List.append_nil _).symm, (List.cons.inj hBack).2⟩
    | cons b as => exact absurd ((List.cons.inj hBack).2 ▸ by simp) h
  · cases as with
    | nil => exact ⟨List.append_nil _, ((List.cons.inj hBack).2).symm⟩
    | cons b as => exact absurd ((List.cons.inj hBack).2 ▸ by simp) h'

namespace Entity

variable {e e' : Entity}

theorem ident_player (h : e.className = playerClass) : e.ident = playerClass := if_pos h

theorem toList_ident (h : e.className ≠ playerClass) :
    e.ident.toList = e.className.toList ++ '_' :: Decimal.paddedDigits 4 e.number := by
  rw [ident, if_neg h]
  simp

theorem underscore_mem_ident (h : e.className ≠ playerClass) : '_' ∈ e.ident.toList := by
  rw [toList_ident h]
  exact List.mem_append_right _ List.mem_cons_self

theorem ident_eq_player_iff : e.ident = playerClass ↔ e.className = playerClass := by
  refine ⟨fun hIdent => ?_, ident_player⟩
  by_contra hClass
  exact absurd (hIdent ▸ underscore_mem_ident hClass) (by decide)

/-- No name but the player's is a word that refers to something else. -/
theorem parse_ident (h : e.className ≠ playerClass) : EntityRef.parse e.ident = .ident e.ident := by
  have hNot (word : String) (hWord : '_' ∉ word.toList) : e.ident ≠ word := fun hEq =>
    hWord (hEq ▸ underscore_mem_ident h)
  simp [EntityRef.parse, hNot "self" (by decide), hNot "me" (by decide), hNot "player" (by decide),
    hNot "none" (by decide), hNot "" (by decide)]

/-- A name tells class and number. -/
theorem eq_of_ident_eq (h : e.className ≠ playerClass) (h' : e'.className ≠ playerClass)
    (hSame : e.ident = e'.ident) : e.className = e'.className ∧ e.number = e'.number := by
  have hText := congrArg String.toList hSame
  rw [toList_ident h, toList_ident h'] at hText
  obtain ⟨hClass, hNumber⟩ := append_cons_inj_of_notMem_tail
    (Decimal.underscore_notMem_paddedDigits 4 _) (Decimal.underscore_notMem_paddedDigits 4 _) hText
  exact ⟨String.toList_injective hClass, Decimal.paddedDigits_injective 4 hNumber⟩

end Entity

namespace EntityTable

variable {t t' : EntityTable} {id : EntityId} {e : Entity}

namespace Ordered

theorem lowest_of_find? (h : t.Ordered) {kind : Entity → Bool} {m m' : EntityId × Entity}
    (hFind : t.members.find? (fun m => kind m.2) = some m) (hMem : m' ∈ t.members)
    (hKind : kind m'.2 = true) : m.1.index ≤ m'.1.index := by
  obtain ⟨-, before, after, hSplit, hBefore⟩ := List.find?_eq_some_iff_append.mp hFind
  have hSorted := h.sorted
  rw [ids, hSplit, List.map_append, List.map_cons] at hSorted
  rcases List.mem_append.mp (hSplit ▸ hMem) with hEarly | hLate
  · have hNot := hBefore _ hEarly
    rw [hKind] at hNot
    cases hNot
  · rcases List.mem_cons.mp hLate with rfl | hRest
    · exact Nat.le_refl _
    · exact Nat.le_of_lt (List.rel_of_pairwise_cons (List.pairwise_append.mp hSorted).2.1
        (List.mem_map_of_mem hRest))

/-- Where handles are in order, the first entity of a kind is the one with the lowest handle. -/
theorem first_eq_some_iff (h : t.Ordered) (kind : Entity → Bool) :
    (t.members.find? fun m => kind m.2).map Prod.fst = some id ↔
      (∃ m ∈ t.members, m.1 = id ∧ kind m.2 = true) ∧
        ∀ m ∈ t.members, kind m.2 = true → id.index ≤ m.1.index := by
  have hKindOf {m : EntityId × Entity} (hFind : t.members.find? (fun m => kind m.2) = some m) :
      kind m.2 = true := List.find?_some (p := fun m : EntityId × Entity => kind m.2) hFind
  constructor
  · intro hSome
    obtain ⟨m, hFind, rfl⟩ := Option.map_eq_some_iff.mp hSome
    exact ⟨⟨m, List.mem_of_find?_eq_some hFind, rfl, hKindOf hFind⟩,
      fun m' => h.lowest_of_find? hFind⟩
  · rintro ⟨⟨m, hMem, rfl, hKind⟩, hLowest⟩
    cases hFind : t.members.find? fun m => kind m.2 with
    | none => exact absurd hKind (List.find?_eq_none.mp hFind m hMem)
    | some m' =>
        have hUp := h.lowest_of_find? hFind hMem hKind
        have hDown := hLowest m' (List.mem_of_find?_eq_some hFind) (hKindOf hFind)
        exact congrArg some (congrArg EntityId.mk (Nat.le_antisymm hUp hDown))

theorem get?_eq_some_iff (h : t.Ordered) : t.get? id = some e ↔ (id, e) ∈ t.members := by
  refine ⟨mem_of_get?, fun hMem => ?_⟩
  exact Option.map_eq_some_iff.mpr ⟨_, (find?_key_eq_some_iff h.nodup).mpr ⟨hMem, rfl⟩, rfl⟩

end Ordered

/-- What becomes of a table: entities are spawned and removed, and what else is changed leaves them
their class and their number. -/
inductive Step : EntityTable → EntityTable → Prop where
  | spawn (t : EntityTable) (e : Entity) : Step t (t.spawn e).2
  | remove (t : EntityTable) (id : EntityId) : Step t (t.remove id)
  | modify (t : EntityTable) (id : EntityId) {f : Entity → Entity}
      (hf : ∀ e, (f e).className = e.className ∧ (f e).number = e.number) : Step t (t.modify id f)

/-- The class and the number of an entity. -/
def mark (m : EntityId × Entity) : String × Nat := (m.2.className, m.2.number)

/-- The entities of a class have numbers of their own, up to how many of the class were spawned. -/
structure Numbered (t : EntityTable) : Prop extends t.Ordered where
  counted : ∀ m ∈ t.members, m.2.number ≤ t.count m.2.className
  apart : (t.members.map mark).Nodup

theorem numbered_empty : empty.Numbered where
  sorted := .nil
  below := List.forall_mem_nil _
  counted := List.forall_mem_nil _
  apart := .nil

theorem count_spawn (t : EntityTable) (e : Entity) (className : String) :
    (t.spawn e).2.count className =
      if className = e.className then t.count e.className + 1 else t.count className := by
  simp only [count, EntityTable.spawn]
  by_cases hSame : className = e.className
  · rw [if_pos hSame, hSame, List.lookup_cons_self]
    rfl
  · rw [if_neg hSame, List.lookup_cons, beq_false_of_ne hSame]
    exact congrArg (Option.getD · 0) (lookup_filter_ne hSame _)

theorem Numbered.spawn (h : t.Numbered) (e : Entity) : (t.spawn e).2.Numbered := by
  have hCount (className : String) : t.count className ≤ (t.spawn e).2.count className := by
    rw [count_spawn]
    split
    · rename_i hSame
      exact hSame ▸ Nat.le_succ _
    · exact Nat.le_refl _
  refine { toOrdered := h.toOrdered.spawn e, counted := ?_, apart := ?_ }
  · refine List.forall_mem_append.mpr ⟨fun m hm => Nat.le_trans (h.counted m hm) (hCount _),
      List.forall_mem_singleton.mpr ?_⟩
    exact Nat.le_of_eq ((count_spawn t e e.className).trans (if_pos rfl)).symm
  · rw [EntityTable.spawn, List.map_append, List.map_singleton, ← List.concat_eq_append]
    refine h.apart.concat fun hMem => ?_
    obtain ⟨m, hm, hSame⟩ := List.mem_map.mp hMem
    obtain ⟨hClass, hNumber⟩ := Prod.mk.inj hSame
    have hBelow := h.counted m hm
    rw [hClass, hNumber] at hBelow
    exact Nat.not_succ_le_self _ hBelow

theorem Numbered.step (h : t.Numbered) (hStep : t.Step t') : t'.Numbered := by
  cases hStep with
  | spawn e => exact h.spawn e
  | remove id =>
      have hGoes : (t.remove id).members.Sublist t.members := List.filter_sublist
      exact {
        toOrdered := h.toOrdered.sublist (hGoes.map Prod.fst) rfl
        counted := fun m hm => h.counted m (hGoes.subset hm)
        apart := h.apart.sublist (hGoes.map mark) }
  | @modify id f hf =>
      have hMark (m : EntityId × Entity) : mark (if m.1 = id then (m.1, f m.2) else m) = mark m := by
        split
        · exact Prod.ext (hf m.2).1 (hf m.2).2
        · rfl
      have hMarks : (t.modify id f).members.map mark = t.members.map mark := by
        rw [modify, List.map_map]
        exact List.map_congr_left fun m _ => hMark m
      refine {
        toOrdered := h.toOrdered.sublist (ids_modify t id f ▸ List.Sublist.refl _) rfl
        counted := List.forall_mem_map.mpr fun m hm => ?_
        apart := hMarks ▸ h.apart }
      obtain ⟨hClass, hNumber⟩ := Prod.mk.inj (hMark m)
      rw [hClass, hNumber]
      exact h.counted m hm

theorem Step.next_le (hStep : t.Step t') : t.next ≤ t'.next := by
  cases hStep with
  | spawn e => exact Nat.le_succ _
  | remove id => exact Nat.le_refl _
  | modify id hf => exact Nat.le_refl _

/-- A handle that was given and is not live does not come back. -/
theorem Step.gone (hStep : t.Step t') (hGiven : id.index < t.next) (hGone : id ∉ t.ids) :
    id ∉ t'.ids := by
  cases hStep with
  | spawn e =>
      have hIds : (t.spawn e).2.ids = t.ids ++ [⟨t.next⟩] := List.map_append
      rw [hIds, List.mem_append, List.mem_singleton]
      rintro (hLive | rfl)
      · exact hGone hLive
      · exact Nat.lt_irrefl _ hGiven
  | remove gone => exact fun hLive => hGone ((List.filter_sublist.map Prod.fst).subset hLive)
  | modify changed hf => rwa [ids_modify]

theorem stays_gone (run : Leads Step t t') (hGiven : id.index < t.next) (hGone : id ∉ t.ids) :
    id ∉ t'.ids :=
  (run.keeps (P := fun t => id.index < t.next ∧ id ∉ t.ids)
    (fun ⟨hGiven, hGone⟩ hStep =>
      ⟨Nat.lt_of_lt_of_le hGiven hStep.next_le, hStep.gone hGiven hGone⟩) ⟨hGiven, hGone⟩).2

theorem find?_player (t : EntityTable) : t.find? playerClass = t.player? := by
  have hKind : (fun m : EntityId × Entity => decide (m.2.ident = playerClass)) =
      fun m => decide (m.2.className = playerClass) :=
    funext fun _ => decide_eq_decide.mpr Entity.ident_eq_player_iff
  rw [find?, player?, hKind]

/-- The player is the entity of the player class with the lowest handle. -/
theorem Ordered.find?_player_eq_some_iff (h : t.Ordered) :
    t.find? playerClass = some id ↔
      (∃ e, t.get? id = some e ∧ e.className = playerClass) ∧
        ∀ id' e', t.get? id' = some e' → e'.className = playerClass → id.index ≤ id'.index := by
  refine (h.first_eq_some_iff fun e => e.ident = playerClass).trans ?_
  simp only [decide_eq_true_eq, Entity.ident_eq_player_iff, h.get?_eq_some_iff, Prod.exists, Prod.forall]
  refine and_congr_left fun _ => ⟨?_, ?_⟩
  · rintro ⟨_, e, hMem, rfl, hClass⟩
    exact ⟨e, hMem, hClass⟩
  · rintro ⟨e, hMem, hClass⟩
    exact ⟨id, e, hMem, rfl, hClass⟩

theorem Ordered.find?_player_eq_none_iff (h : t.Ordered) :
    t.find? playerClass = none ↔ ∀ id e, t.get? id = some e → e.className ≠ playerClass := by
  refine Option.map_eq_none_iff.trans (List.find?_eq_none.trans ?_)
  simp only [decide_eq_true_eq, h.get?_eq_some_iff, Prod.forall]
  exact forall₃_congr fun _ _ _ => not_congr Entity.ident_eq_player_iff

namespace Numbered

theorem eq_of_ident_eq (h : t.Numbered) {m m' : EntityId × Entity} (hm : m ∈ t.members)
    (hm' : m' ∈ t.members) (hPlayer : m.2.className ≠ playerClass)
    (hSame : m'.2.ident = m.2.ident) : m' = m := by
  have hPlayer' : m'.2.className ≠ playerClass := fun h =>
    hPlayer (Entity.ident_eq_player_iff.mp (hSame ▸ Entity.ident_player h))
  obtain ⟨hClass, hNumber⟩ := Entity.eq_of_ident_eq hPlayer' hPlayer hSame
  exact List.inj_on_of_nodup_map h.apart hm' hm (Prod.ext hClass hNumber)

theorem find?_ident (h : t.Numbered) (hMem : (id, e) ∈ t.members)
    (hPlayer : e.className ≠ playerClass) : t.find? e.ident = some id := by
  refine (h.first_eq_some_iff fun e' => e'.ident = e.ident).mpr
    ⟨⟨_, hMem, rfl, decide_eq_true rfl⟩, fun m hm hSame => ?_⟩
  have hHere := h.eq_of_ident_eq hMem hm hPlayer (of_decide_eq_true hSame)
  exact Nat.le_of_eq (congrArg (fun m => m.1.index) hHere.symm)

end Numbered

/-- Handles count up and do not come back. The name of an entity that is not the player leads to it and
to no other, wherever it is used, and it is none of the words that mean something else; the name of the
player leads to the first entity of the player class. -/
theorem names_identify (run : Leads Step empty t) :
    (∀ e t' e', Leads Step (t.spawn e).2 t' → (t.spawn e).1.index < (t'.spawn e').1.index) ∧
      (∀ id t', t.contains id = true → Leads Step (t.remove id) t' → t'.contains id = false) ∧
      (∀ id e, t.get? id = some e → e.className ≠ playerClass →
        (∀ this, t.resolve? e.ident this = some id) ∧
        (∀ id' e', t.get? id' = some e' → e'.ident = e.ident → id' = id) ∧
        e.ident ∉ ["self", "me", "player", "none", ""]) ∧
      (∀ this, t.resolve? "player" this = t.find? "player") ∧
      (∀ id, t.find? "player" = some id ↔
        (∃ e, t.get? id = some e ∧ e.className = playerClass) ∧
          ∀ id' e', t.get? id' = some e' → e'.className = playerClass → id.index ≤ id'.index) ∧
      (t.find? "player" = none ↔ ∀ id e, t.get? id = some e → e.className ≠ playerClass) := by
  have hNumbered : t.Numbered := run.keeps Numbered.step numbered_empty
  have hMember {id : EntityId} {e : Entity} : t.get? id = some e ↔ (id, e) ∈ t.members :=
    hNumbered.get?_eq_some_iff
  refine ⟨fun e t' e' run' => ?_, fun id t' hLive run' => ?_,
    fun id e hGet hPlayer => ⟨fun this => ?_, fun id' e' hGet' hSame => ?_, fun hWord => ?_⟩,
    fun this => (find?_player t).symm, fun id => hNumbered.find?_player_eq_some_iff,
    hNumbered.find?_player_eq_none_iff⟩
  · exact run'.keeps (P := fun t' => t.next < t'.next)
      (fun hLess hStep => Nat.lt_of_lt_of_le hLess hStep.next_le) (Nat.lt_succ_self _)
  · have hGiven : id.index < t.next := hNumbered.below id (contains_iff.mp hLive)
    have hGone : id ∉ (t.remove id).ids := by
      simp [remove, ids]
    exact Bool.eq_false_iff.mpr fun hBack => stays_gone run' hGiven hGone (contains_iff.mp hBack)
  · rw [resolve?, Entity.parse_ident hPlayer]
    exact hNumbered.find?_ident (hMember.mp hGet) hPlayer
  · exact congrArg Prod.fst
      (hNumbered.eq_of_ident_eq (hMember.mp hGet) (hMember.mp hGet') hPlayer hSame)
  · have hPlain : ∀ word ∈ ["self", "me", "player", "none", ""], '_' ∉ word.toList := by decide
    exact hPlain _ hWord (Entity.underscore_mem_ident hPlayer)

/-- Rats and an entity whose class reads like the name of a rat; the first rat is gone. -/
def colony : EntityTable :=
  let rats := (empty.spawn { className := "rat" }).2
  let beasts := (rats.spawn { className := "rat_0002" }).2
  let rest := (beasts.remove ⟨0⟩).spawn { className := playerClass }
  (rest.2.spawn { className := "rat" }).2

theorem names_identify_colony :
    Leads Step empty colony ∧ colony.resolve? "rat_0002" ⟨1⟩ = some ⟨3⟩ ∧
      colony.resolve? "rat_0002_0001" ⟨1⟩ = some ⟨1⟩ ∧ colony.find? "player" = some ⟨2⟩ := by
  have run : Leads Step empty colony :=
    ((((Leads.refl.tail (.spawn _ _)).tail (.spawn _ _)).tail (.remove _ ⟨0⟩)).tail
      (.spawn _ _)).tail (.spawn _ _)
  obtain ⟨-, -, hNames, -, hPlayer, -⟩ := names_identify run
  refine ⟨run, ?_, ?_, ?_⟩
  · exact (hNames ⟨3⟩ { className := "rat", number := 2 } rfl (by decide)).1 ⟨1⟩
  · exact (hNames ⟨1⟩ { className := "rat_0002", number := 1 } rfl (by decide)).1 ⟨1⟩
  · refine (hPlayer ⟨2⟩).mpr ⟨⟨{ className := playerClass, number := 1 }, rfl, rfl⟩,
      fun id e hGet hClass => ?_⟩
    rcases List.mem_cons.mp (mem_of_get? hGet) with hRat | hRest
    · cases hRat
      exact absurd hClass (by decide)
    · rcases List.mem_cons.mp hRest with hHere | hRest
      · cases hHere
        exact Nat.le_refl _
      · cases List.mem_singleton.mp hRest
        exact absurd hClass (by decide)

end EntityTable

end EntityScript
