import GroupOffsets.Proofs.Ledger
import GroupOffsets.Proofs.Nested

/-!
# Listings of the offset table

A group is listed on a topic if the table has an entry for the two.  Every change that makes an
entry puts an offset into it, and those that take offsets away take whole entries; so an entry
without offsets can only come from a snapshot.  Where none did, all that the table lists and counts
can be read off its offsets: `OffsetTable.listings_follow_offsets`.
-/

namespace GroupOffsets

namespace GroupTopic

theorem compare_eq_lt {k l : GroupTopic} : compare k l = .lt ↔
    k.group < l.group ∨ k.group = l.group ∧ k.topic < l.topic := by
  have hcompare : compare k l = (compare k.group l.group).then (compare k.topic l.topic) := rfl
  have hlt : ∀ a b : String, compare a b = .lt ↔ a < b := fun _ _ ↦ compareOfLessAndEq_eq_lt
  rw [hcompare, Ordering.then_eq_lt, Std.LawfulEqCmp.compare_eq_iff_eq, hlt, hlt]

end GroupTopic

namespace OffsetTable

variable {t : OffsetTable} {k : GroupTopic} {p : Int32} {o : Offset}
variable {source dest topic group : String}

/-! ## Entries hold offsets -/

theorem tight_put (h : Tight t.entries) : Tight (t.put k p o).entries :=
  h.insert Std.ExtTreeMap.insert_ne_empty

/-- A group that is copied has offsets, and so has the group that it is copied to. -/
theorem tight_cloneGroup (h : Tight t.entries) : Tight (t.cloneGroup source dest topic).entries := by
  rw [cloneGroup]
  split
  · exact h
  · rename_i copy hcopy
    refine h.insert fun hempty ↦ h ⟨source, topic⟩ ?_
    rw [← Std.ExtTreeMap.isEmpty_iff, Std.ExtTreeMap.isEmpty_union, Bool.and_eq_true] at hempty
    exact Std.ExtTreeMap.isEmpty_iff.mp hempty.2 ▸ hcopy

/-- Only a snapshot can bring in an entry without offsets. -/
theorem tight_change (h : Tight t.entries) (c : Change) (hc : ∀ s, c = .restore s → Tight s) :
    Tight (t.change c).entries := by
  cases c with
  | commit k p o => exact tight_put h
  | cloneGroup source dest topic => exact tight_cloneGroup h
  | seedIfAbsent k p o =>
      simp only [change, seedIfAbsent]
      split
      · exact h
      · exact tight_put h
  | remove k => exact h.erase
  | deleteGroup group => exact h.filter _
  | removeIfUnchanged k expected =>
      simp only [change, removeIfUnchanged]
      split
      · split
        · exact h.erase
        · exact h
      · exact h
  | restore s => exact hc s rfl

theorem tight_changes (h : Tight t.entries) {cs : List Change}
    (hcs : ∀ s, .restore s ∈ cs → Tight s) : Tight (t.changes cs).entries := by
  induction cs generalizing t with
  | nil => exact h
  | cons c cs ih =>
      have hc : ∀ s, c = .restore s → Tight s := fun s hs ↦ hcs s (hs ▸ List.mem_cons_self)
      exact ih (tight_change h c hc) fun s hs ↦ hcs s (List.mem_cons_of_mem _ hs)

/-! ## What is listed -/

theorem mem_keys_iff (h : Tight t.entries) : k ∈ t.keys ↔ ∃ p, (t.query k p).isSome := by
  simp only [query_eq_bind]
  exact mem_keys.trans h.isSome_iff

theorem mem_topicsOf : topic ∈ t.topicsOf group ↔ ⟨group, topic⟩ ∈ t.keys := by
  simp only [topicsOf, List.mem_map, List.mem_filter, beq_iff_eq]
  constructor
  · rintro ⟨⟨g, τ⟩, ⟨hk, rfl⟩, rfl⟩
    exact hk
  · exact fun hk ↦ ⟨_, ⟨hk, rfl⟩, rfl⟩

theorem mem_groupsOf : group ∈ t.groupsOf topic ↔ ⟨group, topic⟩ ∈ t.keys := by
  simp only [groupsOf, List.mem_map, List.mem_filter, beq_iff_eq]
  constructor
  · rintro ⟨⟨g, τ⟩, ⟨hk, rfl⟩, rfl⟩
    exact hk
  · exact fun hk ↦ ⟨_, ⟨hk, rfl⟩, rfl⟩

/-- Keys that agree in one part are listed in the order of the other part. -/
theorem pairwise_listed {fixed listed : GroupTopic → String}
    (horder : ∀ k l, compare k l = .lt → fixed k = fixed l → listed k < listed l) (x : String) :
    ((t.keys.filter fun k ↦ fixed k == x).map listed).Pairwise (· < ·) := by
  rw [List.pairwise_map]
  refine (t.entries.ordered_keys.filter _).imp_of_mem fun {k l} hk hl hlt ↦ horder k l hlt ?_
  rw [eq_of_beq (List.mem_filter.mp hk).2, eq_of_beq (List.mem_filter.mp hl).2]

theorem pairwise_topicsOf : (t.topicsOf group).Pairwise (· < ·) := by
  refine pairwise_listed (fun k l hlt hgroup ↦ ?_) group
  rcases GroupTopic.compare_eq_lt.mp hlt with hless | ⟨-, hless⟩
  · exact absurd (hgroup ▸ hless) (String.lt_irrefl _)
  · exact hless

theorem pairwise_groupsOf : (t.groupsOf topic).Pairwise (· < ·) := by
  refine pairwise_listed (fun k l hlt htopic ↦ ?_) topic
  rcases GroupTopic.compare_eq_lt.mp hlt with hless | ⟨-, hless⟩
  · exact hless
  · exact absurd (htopic ▸ hless) (String.lt_irrefl _)

/-! ## What is counted -/

theorem length_topicsOf : (t.topicsOf group).length =
    (t.entries.toList.filter fun e ↦ e.1.group == group).length := by
  rw [topicsOf, keys, ← Std.ExtTreeMap.map_fst_toList_eq_keys, List.length_map, List.filter_map,
    List.length_map]
  rfl

/-- The deletion of a group tells how many topics were listed for it. -/
theorem deleteGroup_fst : (t.deleteGroup group).1 = (t.topicsOf group).length := by
  -- the entries are those of the group and the rest, and only the rest is kept
  have hsplit := t.entries.toList.length_eq_length_filter_add fun e ↦ e.1.group == group
  have hrest : (t.entries.filter fun k _ ↦ k.group != group).size =
      (t.entries.toList.filter fun e ↦ !(e.1.group == group)).length := by
    rw [← Std.ExtTreeMap.length_toList, Std.ExtTreeMap.toList_filter]
    rfl
  rw [Std.ExtTreeMap.length_toList, ← hrest, ← length_topicsOf] at hsplit
  simp only [deleteGroup]
  omega

/-- **Listings.**  As long as no snapshot with an empty entry is restored, no entry of a table is
ever empty.  Then the topics of a group are those on which it has an offset, and the groups of a
topic those that have one there, each once and in order; the keys are these pairs, each once, and
the size is their number; a removal hands out all offsets of the pair if it is listed, and nothing
otherwise; and the deletion of a group says how many topics were listed for it and takes away the
offsets of no other group. -/
theorem listings_follow_offsets {cs : List Change}
    (hcs : ∀ s, .restore s ∈ cs → ∀ k : GroupTopic, s[k]? ≠ some ∅) :
    let t := (∅ : OffsetTable).changes cs
    (∀ k, t.partitions k ≠ some ∅) ∧
    (∀ group, (t.topicsOf group).Pairwise (· < ·) ∧
      ∀ topic, topic ∈ t.topicsOf group ↔ ∃ p, (t.query ⟨group, topic⟩ p).isSome) ∧
    (∀ topic, (t.groupsOf topic).Pairwise (· < ·) ∧
      ∀ group, group ∈ t.groupsOf topic ↔ ∃ p, (t.query ⟨group, topic⟩ p).isSome) ∧
    (t.keys.Nodup ∧ (∀ k, k ∈ t.keys ↔ ∃ p, (t.query k p).isSome) ∧ t.size = t.keys.length) ∧
    (∀ k, ((t.remove k).1.isSome ↔ k.topic ∈ t.topicsOf k.group) ∧
      (∀ m, (t.remove k).1 = some m → ∀ p, m[p]? = t.query k p) ∧
      ∀ k' p, (t.remove k).2.query k' p = if k' = k then none else t.query k' p) ∧
    ∀ group, (t.deleteGroup group).1 = (t.topicsOf group).length ∧
      ∀ k p, (t.deleteGroup group).2.query k p =
        if k.group = group then none else t.query k p := by
  intro t
  have htight : Tight t.entries := tight_changes tight_empty hcs
  refine ⟨htight, fun group ↦ ⟨pairwise_topicsOf, fun topic ↦ ?_⟩,
    fun topic ↦ ⟨pairwise_groupsOf, fun group ↦ ?_⟩, ⟨nodup_keys, fun k ↦ mem_keys_iff htight, ?_⟩,
    fun k ↦ ⟨?_, fun m hm p ↦ ?_, fun k' p ↦ query_erase⟩,
    fun group ↦ ⟨deleteGroup_fst, fun k p ↦ query_deleteGroup⟩⟩
  · exact mem_topicsOf.trans (mem_keys_iff htight)
  · exact mem_groupsOf.trans (mem_keys_iff htight)
  · exact Std.ExtTreeMap.length_keys.symm
  · exact mem_keys.symm.trans mem_topicsOf.symm
  · have hpartitions : t.partitions k = some m := hm
    rw [query_eq_bind, hpartitions, Option.bind_some]

/-- A snapshot, a commit, a copy and two removals: the group that is left is listed on both of its
topics, and its deletion says so. -/
theorem two_topics_listed :
    let s : Snapshot := (∅ : Snapshot).insert ⟨"g", "t"⟩ ((∅ : PartitionOffsets).insert 0 7)
    let cs : List Change := [.restore s, .commit ⟨"g", "u"⟩ 3 4, .cloneGroup "g" "h" "t",
      .remove ⟨"h", "t"⟩, .removeIfUnchanged ⟨"g", "u"⟩ ∅]
    let t := (∅ : OffsetTable).changes cs
    (∀ s, .restore s ∈ cs → ∀ k : GroupTopic, s[k]? ≠ some ∅) ∧
    t.topicsOf "g" = ["t", "u"] ∧ "h" ∉ t.groupsOf "t" ∧ (t.deleteGroup "g").1 = 2 := by
  intro s cs t
  have htight : Tight s := tight_empty.insert Std.ExtTreeMap.insert_ne_empty
  have hcs : ∀ s, .restore s ∈ cs → ∀ k : GroupTopic, s[k]? ≠ some ∅ := by
    intro s' hs'
    have hs : s' = s := by simpa [cs] using hs'
    exact hs ▸ htight
  have hlisted : t.topicsOf "g" = ["t", "u"] := by decide +kernel
  obtain ⟨-, -, hgroups, -, -, hdelete⟩ := listings_follow_offsets hcs
  refine ⟨hcs, hlisted, fun h ↦ ?_, (hdelete "g").1.trans (congrArg List.length hlisted)⟩
  obtain ⟨p, hp⟩ := ((hgroups "t").2 "h").mp h
  have hremoved : t.partitions ⟨"h", "t"⟩ = none := by decide +kernel
  rw [query_eq_bind, hremoved] at hp
  cases hp

end OffsetTable

end GroupOffsets
