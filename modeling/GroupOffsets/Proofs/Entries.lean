import Mathlib.Data.List.Nodup
import Mathlib.Data.List.Perm.Basic
import Mathlib.Data.List.Perm.Subperm
import GroupOffsets.Arrange
import GroupOffsets.OffsetTable

/-!
# Entries of the offset table

The table read as a map: what its operations leave at each key.  Everything later about passes goes
through these equations, and through `arrange`, which visits every element once whatever the picks
are.  The orders of entries and of the partitions in each entry are chosen apart, and every
combination of them can be chosen: `Itinerary.exists_visits`.

`OffsetTable.removeIfUnchanged` compares sizes and then looks at one of the two maps only.  Since
the keys of a map are distinct, that is equality: `OffsetTable.unchanged_iff`.
-/

namespace GroupOffsets

/-! ## Orders of visiting -/

section Arrange

variable {α : Type} (picks : List Nat) (xs : List α)

theorem arrange_perm : (arrange picks xs).Perm xs := by
  induction picks generalizing xs with
  | nil => exact .refl xs
  | cons n picks ih =>
      rcases xs with _ | ⟨y, ys⟩
      · simp [arrange]
      · have hlt : n % (y :: ys).length < (y :: ys).length := Nat.mod_lt _ (by simp)
        rw [arrange, List.getElem?_eq_getElem hlt]
        exact ((ih _).cons _).trans (List.getElem_cons_eraseIdx_perm hlt)

@[simp] theorem mem_arrange {x : α} : x ∈ arrange picks xs ↔ x ∈ xs :=
  (arrange_perm picks xs).mem_iff

theorem nodup_arrange {xs : List α} (h : xs.Nodup) : (arrange picks xs).Nodup :=
  (arrange_perm picks xs).nodup_iff.mpr h

/-- Every order can be chosen. -/
theorem exists_arrange_eq {xs ys : List α} (h : ys.Perm xs) : ∃ picks, arrange picks xs = ys := by
  induction ys generalizing xs with
  | nil => exact ⟨[], h.nil_eq.symm⟩
  | cons y ys ih =>
      obtain ⟨i, hi, rfl⟩ := List.getElem_of_mem (h.subset (List.mem_cons_self ..))
      have hrest : ys.Perm (xs.eraseIdx i) :=
        (h.trans (List.getElem_cons_eraseIdx_perm hi).symm).cons_inv
      obtain ⟨picks, hpicks⟩ := ih hrest
      refine ⟨i :: picks, ?_⟩
      rw [arrange, Nat.mod_eq_of_lt hi, List.getElem?_eq_getElem hi, hpicks]

end Arrange

/-- A pass can visit the entries of a table, or the groups on a topic, and the partitions of each of
them, in any orders: none of these orders restricts another. -/
theorem Itinerary.exists_visits {α : Type} (t : OffsetTable) {xs ys : List α} (hxs : ys.Perm xs)
    {visits : GroupTopic → List (Int32 × Offset)}
    (hvisits : ∀ k offsets, t.partitions k = some offsets → (visits k).Perm offsets.toList) :
    ∃ order : Itinerary, arrange order.entries xs = ys ∧
      ∀ k offsets, t.partitions k = some offsets →
        arrange (order.partitions k) offsets.toList = visits k := by
  obtain ⟨entries, hentries⟩ := exists_arrange_eq hxs
  have hinner : ∀ k, ∃ picks, ∀ offsets, t.partitions k = some offsets →
      arrange picks offsets.toList = visits k := by
    intro k
    cases hk : t.partitions k with
    | none => exact ⟨[], nofun⟩
    | some offsets =>
        obtain ⟨picks, hpicks⟩ := exists_arrange_eq (hvisits k offsets hk)
        refine ⟨picks, fun offsets' h ↦ ?_⟩
        cases h
        exact hpicks
  choose partitions hpartitions using hinner
  exact ⟨⟨entries, partitions⟩, hentries, hpartitions⟩

/-! ## Finite maps -/

section Maps

variable {κ ν : Type} {cmp : κ → κ → Ordering} [Std.TransCmp cmp]

/-- A test of all entries is a test of their list. -/
theorem all_eq_all_toList (m : Std.ExtTreeMap κ ν cmp) (f : κ → ν → Bool) :
    m.all f = m.toList.all fun e ↦ f e.1 e.2 := by
  obtain ⟨⟨q⟩⟩ := m
  induction q using Quotient.ind with
  | _ t =>
      change t.inner.all f = (Std.DTreeMap.Internal.Impl.Const.toList t.inner).all _
      rw [Std.DTreeMap.Internal.Impl.all_eq_all_toListModel,
        Std.DTreeMap.Internal.Impl.Const.toList_eq_toListModel_map]
      simp [List.all_map, Function.comp_def]

theorem nodup_toList (m : Std.ExtTreeMap κ ν cmp) : m.toList.Nodup := by
  refine m.distinct_keys_toList.imp ?_
  rintro a _ h rfl
  exact h Std.ReflCmp.compare_self

/-- A map whose entries all stand in another one of its size is that map: none is left over. -/
theorem eq_of_size_eq_of_subset {m m' : Std.ExtTreeMap κ ν cmp} (hsize : m.size = m'.size)
    (hsub : m.toList ⊆ m'.toList) : m = m' := by
  have hsubperm : m.toList.Subperm m'.toList := List.subperm_of_subset (nodup_toList m) hsub
  exact Std.ExtTreeMap.ext_toList (hsubperm.perm_of_length_le (by simp [hsize]))

variable [Std.LawfulEqCmp cmp]

theorem nodup_fst_toList (m : Std.ExtTreeMap κ ν cmp) : (m.toList.map Prod.fst).Nodup := by
  rw [List.Nodup, List.pairwise_map]
  refine m.distinct_keys_toList.imp fun hne heq ↦ hne ?_
  rw [heq]
  exact Std.ReflCmp.compare_self

theorem mem_of_mem_toList {m : Std.ExtTreeMap κ ν cmp} {k : κ} {v : ν} (h : (k, v) ∈ m.toList) :
    k ∈ m := by
  rw [Std.ExtTreeMap.mem_iff_isSome_getElem?, Std.ExtTreeMap.mem_toList_iff_getElem?_eq_some.mp h]
  rfl

/-- Inserting entries with different keys leaves each of them. -/
theorem getElem?_insertMany_of_mem (m : Std.ExtTreeMap κ ν cmp) {l : List (κ × ν)} {k : κ} {v : ν}
    (hl : (l.map Prod.fst).Nodup) (h : (k, v) ∈ l) : (m.insertMany l)[k]? = some v := by
  classical
  have hdistinct : l.Pairwise fun a b ↦ ¬ cmp a.1 b.1 = .eq :=
    (List.pairwise_map.mp hl).imp fun hne heq ↦ hne (Std.LawfulEqCmp.eq_of_compare heq)
  exact Std.ExtTreeMap.getElem?_insertMany_list_of_mem Std.ReflCmp.compare_self hdistinct h

theorem getElem?_insertMany_of_not_mem (m : Std.ExtTreeMap κ ν cmp) {l : List (κ × ν)} {k : κ}
    (h : k ∉ l.map Prod.fst) : (m.insertMany l)[k]? = m[k]? := by
  classical
  exact Std.ExtTreeMap.getElem?_insertMany_list_of_contains_eq_false (by simpa using h)

/-- A map is what its entries make, in whichever order they are inserted. -/
theorem insertMany_of_perm {m : Std.ExtTreeMap κ ν cmp} {l : List (κ × ν)}
    (hl : l.Perm m.toList) : (∅ : Std.ExtTreeMap κ ν cmp).insertMany l = m := by
  apply Std.ExtTreeMap.ext_getElem?
  intro k
  cases hk : m[k]? with
  | some v =>
      exact getElem?_insertMany_of_mem ∅ ((hl.map Prod.fst).nodup_iff.mpr (nodup_fst_toList m))
        (hl.mem_iff.mpr (Std.ExtTreeMap.mem_toList_iff_getElem?_eq_some.mpr hk))
  | none =>
      rw [getElem?_insertMany_of_not_mem, Std.ExtTreeMap.getElem?_empty]
      intro hmem
      obtain ⟨⟨k', v⟩, hv, rfl⟩ := List.mem_map.mp hmem
      rw [Std.ExtTreeMap.mem_toList_iff_getElem?_eq_some.mp (hl.mem_iff.mp hv)] at hk
      cases hk

end Maps

namespace OffsetTable

variable {t : OffsetTable} {k k' : GroupTopic} {p p' : Int32} {o : Offset}

/-! ## Lookups -/

theorem query_eq_bind : t.query k p = (t.partitions k).bind (·[p]?) := by
  rw [query, queryAll]
  cases t.partitions k <;> simp

@[simp] theorem query_empty : (∅ : OffsetTable).query k p = none := by
  have hentries : (∅ : OffsetTable).entries = ∅ := rfl
  simp [query_eq_bind, partitions, hentries]

theorem mem_keys : k ∈ t.keys ↔ (t.partitions k).isSome := by
  simp [keys, partitions]

theorem nodup_keys : t.keys.Nodup := by
  refine t.entries.distinct_keys.imp ?_
  rintro a _ h rfl
  exact h Std.ReflCmp.compare_self

/-! ## Erasing -/

@[simp] theorem partitions_erase_self : (t.erase k).partitions k = none := by
  simp [erase, partitions]

theorem partitions_erase_of_ne (h : k' ≠ k) : (t.erase k).partitions k' = t.partitions k' := by
  simp [erase, partitions, Std.ExtTreeMap.getElem?_erase, Std.LawfulEqCmp.compare_eq_iff_eq, h.symm]

theorem partitions_erase :
    (t.erase k).partitions k' = if k' = k then none else t.partitions k' := by
  by_cases hk : k' = k
  · rw [if_pos hk, hk, partitions_erase_self]
  · rw [if_neg hk, partitions_erase_of_ne hk]

theorem size_erase {offsets : PartitionOffsets} (h : t.partitions k = some offsets) :
    (t.erase k).size + 1 = t.size := by
  have hmem : t.entries.contains k = true :=
    Std.ExtTreeMap.contains_eq_isSome_getElem?.trans (Option.isSome_of_eq_some h)
  have herased : (t.erase k).size = t.size - 1 := Std.ExtTreeMap.size_erase.trans (if_pos hmem)
  have hle : t.size ≤ (t.erase k).size + 1 := Std.ExtTreeMap.size_le_size_erase
  have hne : t.size ≠ 0 := fun hzero ↦ by
    rw [partitions, Std.ExtTreeMap.eq_empty_iff_size_eq_zero.mpr hzero] at h
    cases h
  omega

/-! ## Storing -/

@[simp] theorem partitions_commit_self :
    (t.commit k p o).partitions k = some ((t.queryAll k).insert p o) := by
  simp [commit, put, partitions]

theorem partitions_put : (t.put k p o).partitions k' =
    if k' = k then some ((t.queryAll k).insert p o) else t.partitions k' := by
  by_cases hk : k' = k
  · subst hk
    simp [put, partitions]
  · have hne : k ≠ k' := fun h ↦ hk h.symm
    simp [put, partitions, Std.ExtTreeMap.getElem?_insert, hk, hne]

/-- A put is seen at its place, and nowhere else. -/
theorem query_put :
    (t.put k p o).query k' p' = if k' = k ∧ p' = p then some o else t.query k' p' := by
  rw [query_eq_bind, partitions_put]
  by_cases hk : k' = k
  · subst hk
    by_cases hp : p' = p
    · simp [hp]
    · have hne : p ≠ p' := fun h ↦ hp h.symm
      simp [hp, hne, Std.ExtTreeMap.getElem?_insert, query]
  · simp [hk, query_eq_bind]

theorem query_commit :
    (t.commit k p o).query k' p' = if k' = k ∧ p' = p then some o else t.query k' p' := query_put

/-- Seeding stores an offset only where there is none. -/
theorem query_seedIfAbsent : (t.seedIfAbsent k p o).2.query k' p' =
    (t.query k' p').or (if k' = k ∧ p' = p then some o else none) := by
  rw [seedIfAbsent]
  cases hq : t.query k p with
  | some previous =>
      by_cases h : k' = k ∧ p' = p
      · obtain ⟨rfl, rfl⟩ := h
        simp [hq]
      · simp [h]
  | none =>
      rw [query_put]
      by_cases h : k' = k ∧ p' = p
      · obtain ⟨rfl, rfl⟩ := h
        simp [hq]
      · simp [h]

/-! ## Comparing and removing -/

/-- The comparison of sizes and of one side is equality of the maps. -/
theorem unchanged_iff {expected offsets : PartitionOffsets} :
    unchanged expected offsets = true ↔ offsets = expected := by
  rw [unchanged, Bool.and_eq_true, beq_iff_eq, all_eq_all_toList, List.all_eq_true]
  constructor
  · rintro ⟨hsize, hall⟩
    apply eq_of_size_eq_of_subset hsize
    intro e he
    exact Std.ExtTreeMap.mem_toList_iff_getElem?_eq_some.mpr (beq_iff_eq.mp (hall e he))
  · rintro rfl
    refine ⟨rfl, fun e he ↦ beq_iff_eq.mpr ?_⟩
    exact Std.ExtTreeMap.mem_toList_iff_getElem?_eq_some.mp he

variable {expected : PartitionOffsets}

theorem removeIfUnchanged_of_eq (h : t.partitions k = some expected) :
    t.removeIfUnchanged k expected = (true, t.erase k) := by
  simp [removeIfUnchanged, h, unchanged_iff.mpr rfl]

theorem removeIfUnchanged_of_ne (h : t.partitions k ≠ some expected) :
    t.removeIfUnchanged k expected = (false, t) := by
  rw [removeIfUnchanged]
  cases hk : t.partitions k with
  | none => rfl
  | some offsets =>
      have hne : ¬ unchanged expected offsets = true :=
        fun hu ↦ h (hk.trans (congrArg some (unchanged_iff.mp hu)))
      simp [hne]

/-- **Compare and remove.**  An entry is removed iff it is there and has the expected offset at each
partition, or none where none is expected.  It is then all that goes; otherwise nothing changes. -/
theorem removal_compares_maps (t : OffsetTable) (k : GroupTopic) (expected : PartitionOffsets) :
    let r := t.removeIfUnchanged k expected
    (r.1 = true ↔
      ∃ offsets, t.partitions k = some offsets ∧ ∀ p : Int32, offsets[p]? = expected[p]?) ∧
    (r.1 = true → (∀ k', r.2.partitions k' = if k' = k then none else t.partitions k') ∧
      r.2.size + 1 = t.size ∧ r.2.regressions = t.regressions) ∧
    (r.1 = false → r.2 = t) := by
  intro r
  by_cases h : t.partitions k = some expected
  · have hr : r = (true, t.erase k) := removeIfUnchanged_of_eq h
    rw [hr]
    exact ⟨iff_of_true rfl ⟨expected, h, fun _ ↦ rfl⟩,
      fun _ ↦ ⟨fun _ ↦ partitions_erase, size_erase h, rfl⟩, nofun⟩
  · have hr : r = (false, t) := removeIfUnchanged_of_ne h
    rw [hr]
    refine ⟨iff_of_false nofun ?_, nofun, fun _ ↦ rfl⟩
    rintro ⟨offsets, hoffsets, hsame⟩
    exact h (hoffsets.trans (congrArg some (Std.ExtTreeMap.ext_getElem? hsame)))

/-- An entry without offsets goes if none are expected, but what is not there cannot go; and an
entry stays if it has only some of the offsets that are expected. -/
example :
    let m : PartitionOffsets := (∅ : PartitionOffsets).insert 0 7
    let t : OffsetTable := ⟨((∅ : Snapshot).insert ⟨"g", "t"⟩ ∅).insert ⟨"g", "u"⟩ m, 0⟩
    (t.removeIfUnchanged ⟨"g", "t"⟩ ∅).1 = true ∧ (t.removeIfUnchanged ⟨"g", "v"⟩ ∅).1 = false ∧
      (t.removeIfUnchanged ⟨"g", "u"⟩ (m.insert 1 7)).1 = false := by
  decide +kernel

end OffsetTable

end GroupOffsets
