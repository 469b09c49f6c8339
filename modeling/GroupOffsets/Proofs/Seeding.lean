import GroupOffsets.Proofs.Opening

/-!
# Seeding in any order

Offsets are stored two keys deep, by group and topic and then by number.  What is stored at one
place does not get into the way of what is stored at another, so cursors that seed different places
may come in any order, and a cursor that finds its place taken leaves no trace.
-/

namespace GroupOffsets

/-! ## Maps of maps -/

section Maps

variable {κ ι ν : Type} {cmp : κ → κ → Ordering} {cmp' : ι → ι → Ordering}
variable [Std.TransCmp cmp] [Std.TransCmp cmp']

/-- Inserts into one of several maps, which is made if need be. -/
def insertIn (m : Std.ExtTreeMap κ (Std.ExtTreeMap ι ν cmp') cmp) (k : κ) (i : ι) (v : ν) :
    Std.ExtTreeMap κ (Std.ExtTreeMap ι ν cmp') cmp :=
  m.insert k (((m[k]?).getD ∅).insert i v)

variable {m : Std.ExtTreeMap κ (Std.ExtTreeMap ι ν cmp') cmp} {k k' : κ} {i i' : ι} {v v' : ν}

theorem getElem?_insertIn_self :
    (insertIn m k i v)[k]? = some (((m[k]?).getD ∅).insert i v) :=
  Std.ExtTreeMap.getElem?_insert_self

variable [Std.LawfulEqCmp cmp]

/-- What is inserted at two keys may be inserted in either order. -/
theorem insert_comm {m : Std.ExtTreeMap κ ν cmp} (h : k ≠ k') :
    (m.insert k v).insert k' v' = (m.insert k' v').insert k v := by
  refine Std.ExtTreeMap.ext_getElem? fun j ↦ ?_
  simp only [Std.ExtTreeMap.getElem?_insert]
  by_cases hj' : cmp k' j = .eq
  · have hj : ¬ cmp k j = .eq := fun hj ↦
      h ((Std.LawfulEqCmp.eq_of_compare hj).trans (Std.LawfulEqCmp.eq_of_compare hj').symm)
    rw [if_pos hj', if_neg hj, if_pos hj']
  · rw [if_neg hj', if_neg hj']

theorem getElem?_insertIn_of_ne (h : k ≠ k') : (insertIn m k i v)[k']? = m[k']? := by
  rw [insertIn, Std.ExtTreeMap.getElem?_insert, if_neg]
  exact fun heq ↦ h (Std.LawfulEqCmp.eq_of_compare heq)

variable [Std.LawfulEqCmp cmp']

/-- What is inserted at two places may be inserted in either order. -/
theorem insertIn_comm (h : k = k' → i ≠ i') :
    insertIn (insertIn m k i v) k' i' v' = insertIn (insertIn m k' i' v') k i v := by
  refine Std.ExtTreeMap.ext_getElem? fun j ↦ ?_
  by_cases hk : k = k'
  · subst hk
    by_cases hj : k = j
    · subst hj
      simp only [getElem?_insertIn_self, Option.getD_some, insert_comm (h rfl)]
    · simp only [getElem?_insertIn_of_ne hj]
  · by_cases hj : k = j
    · subst hj
      rw [getElem?_insertIn_of_ne (Ne.symm hk), getElem?_insertIn_self, getElem?_insertIn_self,
        getElem?_insertIn_of_ne (Ne.symm hk)]
    · rw [getElem?_insertIn_of_ne hj]
      by_cases hj' : k' = j
      · subst hj'
        rw [getElem?_insertIn_self, getElem?_insertIn_self, getElem?_insertIn_of_ne hk]
      · rw [getElem?_insertIn_of_ne hj', getElem?_insertIn_of_ne hj', getElem?_insertIn_of_ne hj]

end Maps

/-! ## Seeds -/

namespace OffsetTable

variable {t : OffsetTable} {k k' : GroupTopic} {p p' : Int32} {o o' : Offset}

theorem seedIfAbsent_of_none (h : t.query k p = none) : (t.seedIfAbsent k p o).2 = t.put k p o := by
  rw [seedIfAbsent, h]

theorem seedIfAbsent_of_isSome (h : (t.query k p).isSome) : (t.seedIfAbsent k p o).2 = t := by
  obtain ⟨o', ho'⟩ := Option.isSome_iff_exists.mp h
  rw [seedIfAbsent, ho']

theorem put_comm (h : k = k' → p ≠ p') : (t.put k p o).put k' p' o' = (t.put k' p' o').put k p o :=
  congrArg (OffsetTable.mk · t.regressions) (insertIn_comm h)

theorem query_put_of_ne (h : k = k' → p ≠ p') : (t.put k p o).query k' p' = t.query k' p' := by
  rw [query_put, if_neg]
  rintro ⟨rfl, rfl⟩
  exact h rfl rfl

/-- Two places are seeded in either order. -/
theorem seedIfAbsent_comm (h : k = k' → p ≠ p') :
    ((t.seedIfAbsent k p o).2.seedIfAbsent k' p' o').2 =
      ((t.seedIfAbsent k' p' o').2.seedIfAbsent k p o).2 := by
  have h' : k' = k → p' ≠ p := fun hk hp ↦ h hk.symm hp.symm
  cases hq : t.query k p with
  | some q =>
      have hstored : (t.query k p).isSome := by rw [hq]; rfl
      have hkept : ((t.seedIfAbsent k' p' o').2.query k p).isSome := by
        rw [query_seedIfAbsent, hq]; rfl
      rw [seedIfAbsent_of_isSome hkept, seedIfAbsent_of_isSome hstored]
  | none =>
      rw [seedIfAbsent_of_none hq]
      cases hq' : t.query k' p' with
      | some q' =>
          have hput : ((t.put k p o).query k' p').isSome := by simp [query_put_of_ne h, hq']
          have hstored : (t.query k' p').isSome := by simp [hq']
          rw [seedIfAbsent_of_isSome hput, seedIfAbsent_of_isSome hstored, seedIfAbsent_of_none hq]
      | none =>
          rw [seedIfAbsent_of_none hq', seedIfAbsent_of_none ((query_put_of_ne h).trans hq'),
            seedIfAbsent_of_none ((query_put_of_ne h').trans hq), put_comm h]

end OffsetTable

namespace Bridge

section Seeds

variable {t : OffsetTable} {tp tp' : TopicPartition} {g g' : String} {x x' : Position}
variable {cs cs' : List (String × Position)}

/-- The table after a cursor was taken into account. -/
def seeded (tp : TopicPartition) (t : OffsetTable) (c : String × Position) : OffsetTable :=
  (seedCursor t tp c.1 c.2).2

theorem seedCursors_snd : (seedCursors t tp cs).2 = cs.foldl (seeded tp) t := by
  induction cs generalizing t with
  | nil => rfl
  | cons c cs ih => exact ih

/-- Cursors of two groups, or on two partitions, are taken into account in either order. -/
theorem seeded_comm (h : g = g' → tp ≠ tp') :
    seeded tp' (seeded tp t (g, x)) (g', x') = seeded tp (seeded tp' t (g', x')) (g, x) := by
  simp only [seeded, seedCursor_snd]
  cases hx : x.encode with
  | error e => rfl
  | ok o =>
      cases hx' : x'.encode with
      | error e => rfl
      | ok o' =>
          refine OffsetTable.seedIfAbsent_comm fun hk hp ↦ ?_
          obtain ⟨rfl, htopic⟩ := GroupTopic.mk.inj hk
          refine h rfl ?_
          cases tp
          cases tp'
          cases htopic
          cases hp
          rfl

/-- The cursors of several groups are taken into account in any order. -/
theorem seedCursors_perm (hperm : cs.Perm cs') (hcs : (cs.map Prod.fst).Nodup) :
    (seedCursors t tp cs).2 = (seedCursors t tp cs').2 := by
  rw [seedCursors_snd, seedCursors_snd]
  refine hperm.foldl_eq' (fun c hc c' hc' t ↦ ?_) t
  by_cases hcc : c = c'
  · rw [hcc]
  · exact seeded_comm fun hg ↦ absurd (List.inj_on_of_nodup_map hcs hc hc' hg) hcc

/-- The cursors on two partitions are taken into account in either order. -/
theorem seedCursors_comm (h : tp ≠ tp') :
    (seedCursors (seedCursors t tp cs).2 tp' cs').2 =
      (seedCursors (seedCursors t tp' cs').2 tp cs).2 := by
  simp only [seedCursors_snd]
  refine List.foldl_hom (fun t ↦ cs.foldl (seeded tp) t) fun t c' ↦ ?_
  exact (List.foldl_hom (fun t ↦ seeded tp' t c') fun t c ↦ seeded_comm fun _ ↦ h.symm).symm

/-- Nothing is seeded where every cursor that has an offset finds one stored. -/
theorem seedCursors_of_stored (h : ∀ c ∈ cs, c.2.encode.toOption.isSome →
    (t.query ⟨c.1, tp.topic⟩ tp.partition).isSome) : (seedCursors t tp cs).2 = t := by
  induction cs with
  | nil => rfl
  | cons c cs ih =>
      obtain ⟨hc, hcs⟩ := List.forall_mem_cons.mp h
      have hseed : (seedCursor t tp c.1 c.2).2 = t := by
        rw [seedCursor_snd]
        cases hx : c.2.encode with
        | error e => rfl
        | ok o => exact OffsetTable.seedIfAbsent_of_isSome (hc (by rw [hx]; rfl))
      rw [seedCursors]
      dsimp only
      rw [hseed, ih hcs]

end Seeds

end Bridge

end GroupOffsets
