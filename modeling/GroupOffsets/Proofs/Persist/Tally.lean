import Mathlib.Algebra.BigOperators.Group.List.Basic
import Mathlib.Data.Set.Card
import GroupOffsets.Proofs.Persist.Step
import GroupOffsets.Proofs.Position

/-!
# The report of a persist pass

A pass over a table that stays as it is, with every partition resolved or not once and for all,
counts each offset once: as written if it stands for a position and its partition is resolved, and
else as failed.  Reports add up, so that the order in which the pass goes over the offsets does not
matter; `Persist.outlook` is what the report will come to, and no answer changes it.
-/

namespace GroupOffsets

/-- The size of a map counts its keys. -/
theorem ncard_keys {κ ν : Type} {cmp : κ → κ → Ordering} [Std.TransCmp cmp] [Std.LawfulEqCmp cmp]
    (m : Std.ExtTreeMap κ ν cmp) : {k | k ∈ m}.ncard = m.size := by
  classical
  have hset : {k | k ∈ m} = ↑m.keys.toFinset := by
    ext k
    simp
  rw [hset, Set.ncard_coe_finset, List.toFinset_card_of_nodup m.nodup_keys,
    Std.ExtTreeMap.length_keys]

/-! ## Sums of reports -/

namespace PersistReport

instance : Zero PersistReport := ⟨∅⟩

instance : Add PersistReport where
  add r r' :=
    ⟨r.persisted + r'.persisted, r.failed + r'.failed, r.skippedSystem + r'.skippedSystem⟩

@[ext] theorem ext {r r' : PersistReport} (hpersisted : r.persisted = r'.persisted)
    (hfailed : r.failed = r'.failed) (hskipped : r.skippedSystem = r'.skippedSystem) : r = r' := by
  cases r
  cases r'
  simp_all

variable (r r' : PersistReport)

@[simp] theorem persisted_zero : (0 : PersistReport).persisted = 0 := rfl

@[simp] theorem failed_zero : (0 : PersistReport).failed = 0 := rfl

@[simp] theorem skippedSystem_zero : (0 : PersistReport).skippedSystem = 0 := rfl

@[simp] theorem persisted_add : (r + r').persisted = r.persisted + r'.persisted := rfl

@[simp] theorem failed_add : (r + r').failed = r.failed + r'.failed := rfl

@[simp] theorem skippedSystem_add :
    (r + r').skippedSystem = r.skippedSystem + r'.skippedSystem := rfl

instance : AddCommMonoid PersistReport where
  add_assoc r r' r'' := by ext <;> simp [Nat.add_assoc]
  zero_add r := by ext <;> simp
  add_zero r := by ext <;> simp
  add_comm r r' := by ext <;> simp [Nat.add_comm]
  nsmul := nsmulRec

/-- What one offset adds to a report: it is written or not. -/
def ofOffset (written : Bool) : PersistReport := if written then ⟨1, 0, 0⟩ else ⟨0, 1, 0⟩

/-- What the entry of a system group adds to a report. -/
def ofSystem : PersistReport := ⟨0, 0, 1⟩

theorem note_eq (written : Bool) :
    (if written then r.notePersisted else r.noteFailed) = r + ofOffset written := by
  cases written <;> rfl

theorem noteFailed_eq : r.noteFailed = r + ofOffset false := rfl

theorem noteSystem_eq : r.noteSystem = r + ofSystem := rfl

/-- A sum of reports counts what was written, what failed, and nothing else. -/
theorem sum_ofOffset {α : Type} (written : α → Bool) (xs : List α) :
    (xs.map fun x ↦ ofOffset (written x)).sum =
      ⟨xs.countP written, xs.countP fun x ↦ !written x, 0⟩ := by
  induction xs with
  | nil => rfl
  | cons x xs ih =>
      rw [List.map_cons, List.sum_cons, ih]
      cases hx : written x <;> ext <;> simp [ofOffset, hx, Nat.add_comm]

end PersistReport

/-! ## The outlook of a pass -/

namespace Persist

open PersistReport (ofOffset ofSystem)

section Outlook

variable (resolves : TopicPartition → Bool) (t : OffsetTable) (isSystem : String → Bool)

/-- Whether an offset is written: it stands for a position, and its partition is resolved. -/
def isWritten (topic : String) (e : Int32 × Offset) : Bool :=
  decide (0 ≤ e.2) && resolves ⟨topic, e.1⟩

/-- What an entry adds to the report. -/
def dueEntry (k : GroupTopic) : PersistReport :=
  if isSystem k.group then ofSystem
  else ((t.queryAll k).toList.map fun e => ofOffset (isWritten resolves k.topic e)).sum

/-- What some entries add to the report. -/
def due (keys : List GroupTopic) : PersistReport := (keys.map (dueEntry resolves t isSystem)).sum

/-- What the report of a pass will come to. -/
def outlook : Progress Persist PersistReport → PersistReport
  | .asks s =>
    s.report + ofOffset (resolves s.target) +
      (s.rest.map fun e => ofOffset (isWritten resolves s.key.topic e)).sum +
        due resolves t isSystem s.keys
  | .done report => report

end Outlook

variable {resolves : TopicPartition → Bool} {t : OffsetTable} {isSystem : String → Bool}
variable {order : Itinerary} {s s' : Persist} {k key : GroupTopic} {keys : List GroupTopic}
variable {report : PersistReport} {offsets : List (Int32 × Offset)} {p : Int32} {o : Offset}

/-- Of an entry nothing is left out. -/
theorem outlook_seek (resolves : TopicPartition → Bool) (t : OffsetTable)
    (isSystem : String → Bool) (key : GroupTopic) (keys : List GroupTopic) (report : PersistReport)
    (offsets : List (Int32 × Offset)) :
    (∃ s, seek key keys report offsets = .asks s ∧ outlook resolves t isSystem (.asks s) =
        report + (offsets.map fun e ↦ ofOffset (isWritten resolves key.topic e)).sum +
          due resolves t isSystem keys) ∨
      seek key keys report offsets =
        .done (report + (offsets.map fun e ↦ ofOffset (isWritten resolves key.topic e)).sum) := by
  fun_induction seek key keys report offsets with
  | case1 report => exact .inr (by simp)
  | case2 report partition offset rest position he =>
      left
      refine ⟨_, rfl, ?_⟩
      have hnonneg : 0 ≤ offset := by
        rw [Position.decode] at he
        split at he
        · cases he
        · exact Int64.not_lt.mp ‹_›
      simp [outlook, target, isWritten, hnonneg, add_assoc]
  | case3 report partition offset rest e he ih =>
      have hneg : ¬ 0 ≤ offset := by
        intro hnonneg
        cases he.symm.trans (Position.decode_of_nonneg hnonneg)
      rcases ih with ⟨s, hs, houtlook⟩ | hdone
      · left
        refine ⟨s, hs, houtlook.trans ?_⟩
        simp [PersistReport.noteFailed_eq, isWritten, hneg, add_assoc]
      · right
        rw [hdone]
        simp [PersistReport.noteFailed_eq, isWritten, hneg, add_assoc]

theorem outlook_advance (report : PersistReport) (keys : List GroupTopic) :
    outlook resolves t isSystem (advance order t isSystem report keys) =
      report + due resolves t isSystem keys := by
  induction keys generalizing report with
  | nil => simp [advance, outlook, due]
  | cons key keys ih =>
      have hdue : due resolves t isSystem (key :: keys) =
          dueEntry resolves t isSystem key + due resolves t isSystem keys := List.sum_cons
      rw [advance, hdue]
      split
      · rename_i hsystem
        rw [ih, PersistReport.noteSystem_eq, dueEntry, if_pos hsystem, add_assoc]
      · rename_i hsystem
        rw [dueEntry, if_neg hsystem, OffsetTable.queryAll]
        split
        · rename_i hnone
          have hempty : (∅ : PartitionOffsets).toList = [] := rfl
          rw [ih, hnone, Option.getD_none, hempty]
          simp
        · rename_i offsets hoffsets
          have hperm := ((arrange_perm (order.partitions key) offsets.toList).map fun e ↦
            ofOffset (isWritten resolves key.topic e)).sum_eq
          rw [hoffsets, Option.getD_some, ← hperm, ← add_assoc]
          rcases outlook_seek resolves t isSystem key keys report
              (arrange (order.partitions key) offsets.toList) with ⟨s, hs, houtlook⟩ | hdone
          · rw [hs, houtlook]
          · rw [hdone]
            exact ih _

/-- The report of a pass is decided when it begins. -/
theorem outlook_start (order : Itinerary) : outlook resolves t isSystem (start order t isSystem) =
    due resolves t isSystem t.keys := by
  rw [start, outlook_advance]
  exact (zero_add _).trans ((arrange_perm order.entries t.keys).map _).sum_eq

/-- No answer changes what the report will come to. -/
theorem outlook_answer (order : Itinerary) (s : Persist) : outlook resolves t isSystem
    (s.answer order t isSystem (resolves s.target)) = outlook resolves t isSystem (.asks s) := by
  rw [answer, PersistReport.note_eq]
  rcases outlook_seek resolves t isSystem s.key s.keys
    (s.report + ofOffset (resolves s.target)) s.rest with ⟨s', hs, houtlook⟩ | hdone
  · rw [hs, houtlook]
    rfl
  · rw [hdone, outlook_advance]
    rfl

/-! ## Counting -/

/-- The offsets of a table that have some property, counted entry by entry. -/
theorem ncard_offsets (t : OffsetTable) (P : GroupTopic → Int32 × Offset → Bool) :
    {x : GroupTopic × Int32 | ∃ o, t.query x.1 x.2 = some o ∧ P x.1 (x.2, o) = true}.ncard =
      (t.keys.map fun k ↦ (t.queryAll k).toList.countP (P k)).sum := by
  let cells : List (GroupTopic × Int32) :=
    t.keys.flatMap fun k ↦ ((t.queryAll k).toList.filter (P k)).map fun e ↦ (k, e.1)
  have hmem : ∀ x, x ∈ cells ↔ ∃ o, t.query x.1 x.2 = some o ∧ P x.1 (x.2, o) = true := by
    rintro ⟨k, p⟩
    simp only [cells, List.mem_flatMap, List.mem_map, List.mem_filter, Prod.exists, Prod.mk.injEq,
      Std.ExtTreeMap.mem_toList_iff_getElem?_eq_some]
    constructor
    · rintro ⟨_, -, _, o, ⟨ho, hP⟩, rfl, rfl⟩
      exact ⟨o, ho, hP⟩
    · rintro ⟨o, ho, hP⟩
      refine ⟨k, ?_, p, o, ⟨ho, hP⟩, rfl, rfl⟩
      rw [OffsetTable.query_eq_bind] at ho
      obtain ⟨offsets, hoffsets, -⟩ := Option.bind_eq_some_iff.mp ho
      rw [OffsetTable.mem_keys, hoffsets]
      rfl
  have hnodup : cells.Nodup := by
    refine List.nodup_flatMap.mpr ⟨fun k _ ↦ ?_, OffsetTable.nodup_keys.imp fun hne ↦ ?_⟩
    · have hfst := (nodup_fst_toList (t.queryAll k)).sublist
        ((List.filter_sublist (p := P k)).map Prod.fst)
      have hmap : (((t.queryAll k).toList.filter (P k)).map fun e ↦ (k, e.1)) =
          (((t.queryAll k).toList.filter (P k)).map Prod.fst).map (Prod.mk k) := by
        rw [List.map_map]
        rfl
      rw [hmap]
      exact hfst.map (Prod.mk_right_injective k)
    · rw [Function.onFun, List.disjoint_left]
      intro x hx hx'
      obtain ⟨_, -, rfl⟩ := List.mem_map.mp hx
      obtain ⟨_, -, heq⟩ := List.mem_map.mp hx'
      exact hne (congrArg Prod.fst heq).symm
  have hset : {x : GroupTopic × Int32 | ∃ o, t.query x.1 x.2 = some o ∧ P x.1 (x.2, o) = true} =
      ↑cells.toFinset := by
    ext x
    simp [hmem]
  rw [hset, Set.ncard_coe_finset, List.toFinset_card_of_nodup hnodup, List.length_flatMap]
  simp [List.countP_eq_length_filter]

/-- The entries of system groups. -/
theorem ncard_systemEntries (t : OffsetTable) (isSystem : String → Bool) :
    {k : GroupTopic | (t.partitions k).isSome ∧ isSystem k.group = true}.ncard =
      t.keys.countP fun k ↦ isSystem k.group := by
  have hset : {k : GroupTopic | (t.partitions k).isSome ∧ isSystem k.group = true} =
      ↑(t.keys.filter fun k ↦ isSystem k.group).toFinset := by
    ext k
    simp [OffsetTable.mem_keys]
  rw [hset, Set.ncard_coe_finset, List.toFinset_card_of_nodup (OffsetTable.nodup_keys.filter _),
    List.countP_eq_length_filter]

theorem due_eq (resolves : TopicPartition → Bool) (t : OffsetTable) (isSystem : String → Bool)
    (keys : List GroupTopic) : due resolves t isSystem keys = {
      persisted := (keys.map fun k ↦ (t.queryAll k).toList.countP fun e ↦
        !isSystem k.group && isWritten resolves k.topic e).sum
      failed := (keys.map fun k ↦ (t.queryAll k).toList.countP fun e ↦
        !isSystem k.group && !isWritten resolves k.topic e).sum
      skippedSystem := keys.countP fun k ↦ isSystem k.group } := by
  induction keys with
  | nil => rfl
  | cons k keys ih =>
      have hdue : due resolves t isSystem (k :: keys) =
          dueEntry resolves t isSystem k + due resolves t isSystem keys := List.sum_cons
      rw [hdue, ih, dueEntry]
      cases hsystem : isSystem k.group with
      | true => ext <;> simp [ofSystem, hsystem, Nat.add_comm]
      | false =>
          rw [PersistReport.sum_ofOffset]
          ext <;> simp [hsystem]

/-- What a pass reports, counted in the table. -/
theorem due_keys (resolves : TopicPartition → Bool) (t : OffsetTable) (isSystem : String → Bool) :
    due resolves t isSystem t.keys = {
      persisted := {x : GroupTopic × Int32 | ∃ o, t.query x.1 x.2 = some o ∧
        isSystem x.1.group = false ∧ 0 ≤ o ∧ resolves ⟨x.1.topic, x.2⟩ = true}.ncard
      failed := {x : GroupTopic × Int32 | ∃ o, t.query x.1 x.2 = some o ∧
        isSystem x.1.group = false ∧ ¬ (0 ≤ o ∧ resolves ⟨x.1.topic, x.2⟩ = true)}.ncard
      skippedSystem :=
        {k : GroupTopic | (t.partitions k).isSome ∧ isSystem k.group = true}.ncard } := by
  rw [due_eq]
  ext
  · have hcount := ncard_offsets t fun k e ↦ !isSystem k.group && isWritten resolves k.topic e
    refine hcount.symm.trans ?_
    simp [isWritten]
  · have hcount := ncard_offsets t fun k e ↦ !isSystem k.group && !isWritten resolves k.topic e
    refine hcount.symm.trans ?_
    simp [isWritten, imp_iff_not_or]
  · exact (ncard_systemEntries t isSystem).symm

/-! ## What is written -/

/-- Where a pass puts the cursor of a group on a partition, if it does. -/
def savedAt (resolves : TopicPartition → Bool) (t : OffsetTable) (isSystem : String → Bool)
    (tp : TopicPartition) (g : String) : Option Position :=
  if !isSystem g && resolves tp then
    (t.query ⟨g, tp.topic⟩ tp.partition).bind fun o => (Position.decode o).toOption
  else none

/-- What a pass is about to write, now and in the same entry later, is in the table. -/
structure Reads (t : OffsetTable) (isSystem : String → Bool) (s : Persist) : Prop where
  user : isSystem s.key.group = false
  asked : ∃ o, t.query s.key s.partition = some o ∧ Position.decode o = .ok s.position
  rest : ∀ {p o}, (p, o) ∈ s.rest → t.query s.key p = some o

theorem seek_reads (hkey : isSystem key.group = false)
    (hoffsets : ∀ {p o}, (p, o) ∈ offsets → t.query key p = some o)
    (h : seek key keys report offsets = .asks s) : s.Reads t isSystem := by
  fun_induction seek key keys report offsets with
  | case1 => cases h
  | case2 report partition offset rest position he =>
      cases h
      exact ⟨hkey, ⟨offset, hoffsets (List.mem_cons_self ..), he⟩,
        fun hmem ↦ hoffsets (List.mem_cons_of_mem _ hmem)⟩
  | case3 report partition offset rest e he ih =>
      exact ih (fun hmem ↦ hoffsets (List.mem_cons_of_mem _ hmem)) h

theorem advance_reads (h : advance order t isSystem report keys = .asks s) :
    s.Reads t isSystem := by
  induction keys generalizing report with
  | nil => cases h
  | cons key keys ih =>
      rw [advance] at h
      split at h
      · exact ih h
      · rename_i hsystem
        split at h
        · exact ih h
        · rename_i offsets hoffsets
          split at h
          · rename_i s' hs'
            cases h
            refine seek_reads (by simpa using hsystem) (fun {p o} hmem ↦ ?_) hs'
            rw [OffsetTable.query_eq_bind, hoffsets, Option.bind_some]
            exact Std.ExtTreeMap.mem_toList_iff_getElem?_eq_some.mp ((mem_arrange ..).mp hmem)
          · exact ih h

theorem answer_reads {moved : Bool} (hs : s.Reads t isSystem)
    (h : s.answer order t isSystem moved = .asks s') : s'.Reads t isSystem := by
  rw [answer] at h
  split at h
  · rename_i s'' hs''
    cases h
    exact seek_reads hs.user hs.rest hs''
  · exact advance_reads h

theorem Reads.savedAt_eq (hs : s.Reads t isSystem) (hresolves : resolves s.target = true) :
    savedAt resolves t isSystem s.target s.key.group = some s.position := by
  obtain ⟨o, ho, hx⟩ := hs.asked
  have hquery : t.query ⟨s.key.group, s.target.topic⟩ s.target.partition = some o := ho
  rw [savedAt, hs.user, hresolves, hquery, Option.bind_some, hx]
  rfl

/-- What a pass writes stands in the table, for a group of users and a resolved partition. -/
theorem savedAt_eq_some {tp : TopicPartition} {g : String} {x : Position} :
    savedAt resolves t isSystem tp g = some x ↔ isSystem g = false ∧ resolves tp = true ∧
      ∃ o, t.query ⟨g, tp.topic⟩ tp.partition = some o ∧ Position.decode o = .ok x := by
  rw [savedAt]
  cases isSystem g <;> cases resolves tp <;> simp [Option.bind_eq_some_iff, Except.toOption]
  refine exists_congr fun o ↦ and_congr_right fun _ ↦ ?_
  cases Position.decode o <;> simp

end Persist

end GroupOffsets
