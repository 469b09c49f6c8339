import GroupOffsets.Proofs.Entries

/-!
# The table as a ledger

The offset table keeps an entry for each group and topic, with a map inside.  Whoever only asks for
offsets sees one flat map: a `Ledger`, in which the last write holds.  Every change of the table is
a write to the ledger, and all views of the table report the ledger.

An entry without partitions is no entry in a ledger.  Changes neither make nor need such entries,
but a snapshot that is restored may have some.
-/

namespace GroupOffsets

/-- What changes the offset table. -/
inductive OffsetTable.Change where
  | commit (k : GroupTopic) (p : Int32) (o : Offset)
  | cloneGroup (source dest topic : String)
  | seedIfAbsent (k : GroupTopic) (p : Int32) (o : Offset)
  | remove (k : GroupTopic)
  | deleteGroup (group : String)
  | removeIfUnchanged (k : GroupTopic) (expected : PartitionOffsets)
  | restore (s : Snapshot)

/-- The last offset written for a group, a topic and a partition. -/
abbrev Ledger : Type := GroupTopic → Int32 → Option Offset

open OffsetTable (Change)

/-! ## Writes to the ledger -/

namespace Ledger

variable (l : Ledger)

/-- Nothing was written. -/
def blank : Ledger := fun _ _ => none

/-- The offsets of a snapshot. -/
def ofSnapshot (s : Snapshot) : Ledger := fun k p => (s[k]?).bind (·[p]?)

/-- Whether these are the offsets written for a group and a topic. -/
def Agrees (k : GroupTopic) (offsets : PartitionOffsets) : Prop := ∀ p, l k p = offsets[p]?

open Classical in
/-- What a change writes. -/
noncomputable def write : Change → Ledger
  | .commit k p o => fun k' p' => if k' = k ∧ p' = p then some o else l k' p'
  | .cloneGroup source dest topic => fun k p =>
    if k = ⟨dest, topic⟩ then (l ⟨source, topic⟩ p).or (l k p) else l k p
  | .seedIfAbsent k p o => fun k' p' =>
    if k' = k ∧ p' = p ∧ l k p = none then some o else l k' p'
  | .remove k => fun k' p => if k' = k then none else l k' p
  | .deleteGroup group => fun k p => if k.group = group then none else l k p
  | .removeIfUnchanged k expected => fun k' p =>
    if k' = k ∧ l.Agrees k expected then none else l k' p
  | .restore s => ofSnapshot s

noncomputable def writes (cs : List Change) : Ledger := cs.foldl write l

/-- Whether a change is a commit of an offset below the last one. -/
def rewinds : Change → Bool
  | .commit k p o => (l k p).any (o < ·)
  | _ => false

/-- How many of several changes rewind, each at its moment. -/
noncomputable def regressions : Ledger → List Change → Nat
  | _, [] => 0
  | l, c :: cs => (if l.rewinds c then 1 else 0) + regressions (l.write c) cs

end Ledger

namespace OffsetTable

variable {t : OffsetTable} {l : Ledger} {k k' : GroupTopic} {p : Int32} {s : Snapshot}
variable {source dest topic group : String} {expected : PartitionOffsets}

/-! ## What the operations leave at each place -/

theorem query_cloneGroup : (t.cloneGroup source dest topic).query k p =
    if k = ⟨dest, topic⟩ then (t.query ⟨source, topic⟩ p).or (t.query k p) else t.query k p := by
  rw [cloneGroup]
  split
  · rename_i hsource
    have hnone : t.query ⟨source, topic⟩ p = none := by simp [query_eq_bind, hsource]
    simp [hnone]
  · rename_i copy hsource
    have hcopy : t.query ⟨source, topic⟩ p = copy[p]? := by simp [query_eq_bind, hsource]
    by_cases hk : k = ⟨dest, topic⟩
    · subst hk
      rw [if_pos rfl, hcopy, query_eq_bind, partitions, Std.ExtTreeMap.getElem?_insert_self]
      exact Std.ExtTreeMap.getElem?_union
    · have hne : (⟨dest, topic⟩ : GroupTopic) ≠ k := fun h ↦ hk h.symm
      simp [query_eq_bind, partitions, hk, hne, Std.ExtTreeMap.getElem?_insert]

theorem query_erase : (t.erase k).query k' p = if k' = k then none else t.query k' p := by
  rw [query_eq_bind, partitions_erase, query_eq_bind]
  split <;> rfl

theorem query_deleteGroup :
    (t.deleteGroup group).2.query k p = if k.group = group then none else t.query k p := by
  have hentry : (t.deleteGroup group).2.partitions k =
      (t.partitions k).filter fun _ ↦ k.group != group := Std.ExtTreeMap.getElem?_filter'
  rw [query_eq_bind, hentry]
  by_cases hk : k.group = group
  · simp [hk]
  · have hkeep : (k.group != group) = true := bne_iff_ne.mpr hk
    rw [if_neg hk, query_eq_bind, hkeep]
    cases t.partitions k <;> rfl

theorem query_restore : (t.restore s).query k p = Ledger.ofSnapshot s k p := query_eq_bind

/-- An entry that has the expected offset at each partition is the one that was expected. -/
theorem partitions_eq_of_query {m : PartitionOffsets} (hm : t.partitions k = some m)
    (h : ∀ p, t.query k p = expected[p]?) : m = expected := by
  refine Std.ExtTreeMap.ext_getElem? fun p ↦ ?_
  rw [← h p, query_eq_bind, hm, Option.bind_some]

theorem query_removeIfUnchanged_of_eq (h : ∀ p, t.query k p = expected[p]?) :
    (t.removeIfUnchanged k expected).2.query k' p = if k' = k then none else t.query k' p := by
  cases hm : t.partitions k with
  | some m =>
      rw [partitions_eq_of_query hm h] at hm
      rw [removeIfUnchanged_of_eq hm, query_erase]
  | none =>
      -- there is nothing to remove, and nothing was expected
      rw [removeIfUnchanged_of_ne (by simp [hm])]
      by_cases hk : k' = k
      · simp [query_eq_bind, hk, hm]
      · rw [if_neg hk]

theorem removeIfUnchanged_of_query_ne (h : ¬∀ p, t.query k p = expected[p]?) :
    t.removeIfUnchanged k expected = (false, t) := by
  refine removeIfUnchanged_of_ne fun hm ↦ h fun p ↦ ?_
  rw [query_eq_bind, hm, Option.bind_some]

/-! ## Changes -/

/-- The table after a change. -/
def change (t : OffsetTable) : Change → OffsetTable
  | .commit k p o => t.commit k p o
  | .cloneGroup source dest topic => t.cloneGroup source dest topic
  | .seedIfAbsent k p o => (t.seedIfAbsent k p o).2
  | .remove k => (t.remove k).2
  | .deleteGroup group => (t.deleteGroup group).2
  | .removeIfUnchanged k expected => (t.removeIfUnchanged k expected).2
  | .restore s => t.restore s

/-- The table after several changes. -/
def changes (t : OffsetTable) (cs : List Change) : OffsetTable := cs.foldl change t

/-- The ledger that a table keeps. -/
def ledger (t : OffsetTable) : Ledger := t.query

/-- A change of the table is a write to its ledger. -/
theorem ledger_change (t : OffsetTable) (c : Change) : (t.change c).ledger = t.ledger.write c := by
  funext k' p'
  simp only [ledger]
  cases c with
  | commit k p o => exact query_commit
  | cloneGroup source dest topic => exact query_cloneGroup
  | seedIfAbsent k p o =>
      simp only [change, query_seedIfAbsent, Ledger.write]
      by_cases hat : k' = k ∧ p' = p
      · obtain ⟨rfl, rfl⟩ := hat
        cases t.query k' p' <;> simp
      · have hpast : ¬(k' = k ∧ p' = p ∧ t.query k p = none) := fun h ↦ hat ⟨h.1, h.2.1⟩
        rw [if_neg hat, if_neg hpast, Option.or_none]
  | remove k => exact query_erase
  | deleteGroup group => exact query_deleteGroup
  | removeIfUnchanged k expected =>
      simp only [change, Ledger.write]
      by_cases h : t.ledger.Agrees k expected
      · rw [query_removeIfUnchanged_of_eq h]
        by_cases hk : k' = k
        · rw [if_pos hk, if_pos ⟨hk, h⟩]
        · rw [if_neg hk, if_neg fun hkh ↦ hk hkh.1]
      · rw [removeIfUnchanged_of_query_ne h, if_neg fun hkh ↦ h hkh.2]
  | restore s => exact query_restore

theorem regresses_eq (t : OffsetTable) (k : GroupTopic) (p : Int32) (o : Offset) :
    t.regresses k p o = t.ledger.rewinds (.commit k p o) := by
  rw [regresses, Ledger.rewinds, ledger]
  cases t.query k p <;> rfl

/-- Commits are counted if they rewind, and nothing else is. -/
theorem regressions_change (t : OffsetTable) (c : Change) : (t.change c).regressions =
    t.regressions + if t.ledger.rewinds c then 1 else 0 := by
  cases c with
  | commit k p o => rw [← regresses_eq]; rfl
  | cloneGroup source dest topic =>
      simp only [change, cloneGroup]
      split <;> rfl
  | seedIfAbsent k p o =>
      simp only [change, seedIfAbsent]
      split <;> rfl
  | removeIfUnchanged k expected =>
      simp only [change, removeIfUnchanged]
      split
      · split <;> rfl
      · rfl
  | _ => rfl

/-! ## Runs of changes -/

theorem ledger_changes (t : OffsetTable) (cs : List Change) :
    (t.changes cs).ledger = t.ledger.writes cs := by
  induction cs generalizing t with
  | nil => rfl
  | cons c cs ih =>
      rw [changes, List.foldl_cons, Ledger.writes, List.foldl_cons, ← ledger_change]
      exact ih (t.change c)

theorem regressions_changes (t : OffsetTable) (cs : List Change) :
    (t.changes cs).regressions = t.regressions + t.ledger.regressions cs := by
  induction cs generalizing t with
  | nil => rfl
  | cons c cs ih =>
      have hrest : (t.changes (c :: cs)).regressions =
          (t.change c).regressions + (t.change c).ledger.regressions cs := ih (t.change c)
      rw [hrest, regressions_change, ledger_change, Ledger.regressions, Nat.add_assoc]

/-! ## Views -/

theorem mem_offsetsOf {m : PartitionOffsets} {excluded : List String} :
    (group, m) ∈ t.offsetsOf topic excluded ↔
      group ∉ excluded ∧ t.partitions ⟨group, topic⟩ = some m := by
  rw [offsetsOf, List.mem_map]
  constructor
  · rintro ⟨⟨⟨g, τ⟩, m'⟩, hmem, heq⟩
    cases heq
    simp only [List.mem_filter, Std.ExtTreeMap.mem_toList_iff_getElem?_eq_some, Bool.and_eq_true,
      beq_iff_eq, Bool.not_eq_true', List.contains_eq_mem, decide_eq_false_iff_not] at hmem
    obtain ⟨hget, rfl, hexcluded⟩ := hmem
    exact ⟨hexcluded, hget⟩
  · rintro ⟨hexcluded, hget⟩
    refine ⟨(⟨group, topic⟩, m), List.mem_filter.mpr ⟨?_, by simp [hexcluded]⟩, rfl⟩
    exact Std.ExtTreeMap.mem_toList_iff_getElem?_eq_some.mpr hget

/-- Each group is listed once. -/
theorem nodup_offsetsOf (t : OffsetTable) (topic : String) (excluded : List String) :
    ((t.offsetsOf topic excluded).map Prod.fst).Nodup := by
  have hentries : (t.entries.toList.filter fun e ↦
      e.1.topic == topic && !excluded.contains e.1.group).Nodup := (nodup_toList t.entries).filter _
  rw [offsetsOf, List.map_map]
  refine hentries.map_on ?_
  rintro ⟨⟨g, τ⟩, m⟩ h ⟨⟨g', τ'⟩, m'⟩ h' hgroup
  simp only [List.mem_filter, Std.ExtTreeMap.mem_toList_iff_getElem?_eq_some, Bool.and_eq_true,
    beq_iff_eq] at h h'
  obtain ⟨hget, rfl, -⟩ := h
  obtain ⟨hget', rfl, -⟩ := h'
  cases (hgroup : g = g')
  cases hget.symm.trans hget'
  rfl

/-- What is listed for a group is what the ledger has for it, and groups that are not listed have
nothing. -/
theorem lookup_offsetsOf (t : OffsetTable) (topic : String) (excluded : List String)
    (group : String) (p : Int32) : ((t.offsetsOf topic excluded).lookup group).bind (·[p]?) =
      if group ∈ excluded then none else t.ledger ⟨group, topic⟩ p := by
  have hquery : t.ledger ⟨group, topic⟩ p = (t.partitions ⟨group, topic⟩).bind (·[p]?) :=
    query_eq_bind
  cases hlookup : (t.offsetsOf topic excluded).lookup group with
  | some m =>
      obtain ⟨before, after, hlist, -⟩ := List.lookup_eq_some_iff.mp hlookup
      have hmem : (group, m) ∈ t.offsetsOf topic excluded := by simp [hlist]
      obtain ⟨hexcluded, hget⟩ := mem_offsetsOf.mp hmem
      rw [if_neg hexcluded, hquery, hget]
  | none =>
      rw [Option.bind_none]
      split
      · rfl
      · rename_i hexcluded
        cases hget : t.partitions ⟨group, topic⟩ with
        | none => rw [hquery, hget, Option.bind_none]
        | some m =>
            have hmem := mem_offsetsOf.mpr ⟨hexcluded, hget⟩
            have hne := List.lookup_eq_none_iff.mp hlookup _ hmem
            simp at hne

/-- **Last writer.**  A table that began empty reports one flat map through all of its views, and
that is the map that its changes have written; an entry without partitions is like none.  The
regressions are the commits below the offset that the map had at that moment. -/
theorem views_report_ledger (cs : List Change) :
    let t := (∅ : OffsetTable).changes cs
    let l := Ledger.blank.writes cs
    (∀ k p, t.query k p = l k p) ∧
    (∀ k p, (t.queryAll k)[p]? = l k p) ∧
    (∀ k p, (t.partitions k).bind (·[p]?) = l k p) ∧
    (∀ topic excluded, ((t.offsetsOf topic excluded).map Prod.fst).Nodup ∧
      ∀ group p, ((t.offsetsOf topic excluded).lookup group).bind (·[p]?) =
        if group ∈ excluded then none else l ⟨group, topic⟩ p) ∧
    (∀ k p, (t.snapshot[k]?).bind (·[p]?) = l k p) ∧
    t.regressions = Ledger.blank.regressions cs := by
  intro t l
  have hblank : (∅ : OffsetTable).ledger = .blank := by
    funext k p
    exact query_empty
  have hledger : t.ledger = l := by rw [ledger_changes, hblank]
  have hquery : ∀ k p, t.query k p = l k p := fun k p ↦ congrFun (congrFun hledger k) p
  have hentry : ∀ k p, (t.partitions k).bind (·[p]?) = l k p :=
    fun k p ↦ query_eq_bind.symm.trans (hquery k p)
  refine ⟨hquery, hquery, hentry, fun topic excluded ↦ ⟨t.nodup_offsetsOf topic excluded, ?_⟩,
    hentry, ?_⟩
  · intro group p
    rw [lookup_offsetsOf, hledger]
  · have hzero : (∅ : OffsetTable).regressions = 0 := rfl
    rw [regressions_changes, hblank, hzero, Nat.zero_add]

end OffsetTable

end GroupOffsets
