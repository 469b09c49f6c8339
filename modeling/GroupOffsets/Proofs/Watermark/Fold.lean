import Mathlib.Data.Set.Insert
import Mathlib.Order.Bounds.Defs
import GroupOffsets.Pass.Watermark
import GroupOffsets.Proofs.Ledger

/-!
# The watermark of a topic

A watermark query is a fold over offsets, with the minima that it was told of kept beside it.  What
it computes is a function of the offsets in the table and of one answer for each partition:
`OffsetTable.IsWatermark` says which, and no order of visiting shows in it.

An answer that is not there is no minimum, so every offset of the partition counts.
-/

namespace GroupOffsets

namespace OffsetTable

section Watermark

variable (t : OffsetTable) (topic : String) (excluded : List String)
  (min : Int32 → Option Offset)

/-- Some group that is not excluded has this offset on the partition. -/
def Holds (p : Int32) (o : Offset) : Prop := ∃ g, g ∉ excluded ∧ t.query ⟨g, topic⟩ p = some o

/-- Some group still needs this offset: what it points at is retained, or may be. -/
def Needs (p : Int32) (o : Offset) : Prop :=
  t.Holds topic excluded p o ∧ ∀ m, min p = some m → m ≤ o

/-- For each partition of which something is needed, the least offset that is. -/
structure IsWatermark (marks : PartitionOffsets) : Prop where
  mem_iff : ∀ p, p ∈ marks ↔ ∃ o, t.Needs topic excluded min p o
  isLeast : ∀ p o, marks[p]? = some o → IsLeast {o | t.Needs topic excluded min p o} o

end Watermark

variable {t : OffsetTable} {topic : String} {excluded : List String}
  {min : Int32 → Option Offset} {marks marks' : PartitionOffsets} {p : Int32} {o : Offset}

theorem IsWatermark.getElem?_eq_some (h : t.IsWatermark topic excluded min marks) :
    marks[p]? = some o ↔ IsLeast {o | t.Needs topic excluded min p o} o := by
  refine ⟨h.isLeast p o, fun hleast ↦ ?_⟩
  obtain ⟨o', ho'⟩ := Option.isSome_iff_exists.mp
    (Std.ExtTreeMap.mem_iff_isSome_getElem?.mp ((h.mem_iff p).mpr ⟨o, hleast.1⟩))
  have hleast' := h.isLeast p o' ho'
  rw [ho', Int64.le_antisymm (hleast'.2 hleast.1) (hleast.2 hleast'.1)]

/-- A table has one watermark. -/
theorem IsWatermark.unique (h : t.IsWatermark topic excluded min marks)
    (h' : t.IsWatermark topic excluded min marks') : marks' = marks := by
  apply Std.ExtTreeMap.ext_getElem?
  intro p
  apply Option.ext
  intro o
  rw [h.getElem?_eq_some, h'.getElem?_eq_some]

end OffsetTable

/-! ## The fold -/

namespace Watermark

variable {topic : String} {min : Int32 → Option Offset} {seen all rest : List (Int32 × Offset)}
  {marks : PartitionOffsets} {known : Std.ExtTreeMap Int32 (Option Offset)}
  {told : List TopicPartition} {s : Watermark} {p q : Int32} {o : Offset}

theorem isStale_eq_false_iff {m : Option Offset} :
    isStale m o = false ↔ ∀ m', m = some m' → m' ≤ o := by
  cases m with
  | none => simp [isStale]
  | some m => simp [isStale, Int64.not_lt]

/-- The smaller of two offsets is the least of those that the first one was the least of, and the
second. -/
theorem isLeast_insert_lower {S : Set Offset} {mark : Offset} (h : IsLeast S mark) (o : Offset) :
    IsLeast (insert o S) (lower mark o) := by
  unfold lower
  split
  · rename_i hlt
    refine ⟨.inl rfl, ?_⟩
    rintro o' (rfl | ho')
    · exact Int64.le_refl _
    · exact Int64.le_trans (Int64.le_of_lt hlt) (h.2 ho')
  · rename_i hle
    refine ⟨.inr h.1, ?_⟩
    rintro o' (rfl | ho')
    · exact Int64.not_lt.mp hle
    · exact h.2 ho'

/-- The offsets of a partition among those seen that are not stale. -/
def counted (min : Int32 → Option Offset) (seen : List (Int32 × Offset)) (p : Int32) : Set Offset :=
  {o | (p, o) ∈ seen ∧ isStale (min p) o = false}

theorem counted_append_of_counts (h : isStale (min p) o = false) :
    counted min (seen ++ [(p, o)]) p = insert o (counted min seen p) := by
  ext o'
  simp only [counted, List.mem_append, List.mem_singleton, Prod.mk.injEq, true_and,
    Set.mem_ofPred_eq, Set.mem_insert_iff]
  constructor
  · rintro ⟨hseen | rfl, hstale⟩
    · exact .inr ⟨hseen, hstale⟩
    · exact .inl rfl
  · rintro (rfl | ⟨hseen, hstale⟩)
    · exact ⟨.inr rfl, h⟩
    · exact ⟨.inl hseen, hstale⟩

theorem counted_append_of_not_counts (h : q = p → isStale (min p) o = true) :
    counted min (seen ++ [(p, o)]) q = counted min seen q := by
  ext o'
  simp only [counted, List.mem_append, List.mem_singleton, Prod.mk.injEq, Set.mem_ofPred_eq]
  constructor
  · rintro ⟨hseen | ⟨rfl, rfl⟩, hstale⟩
    · exact ⟨hseen, hstale⟩
    · cases (h rfl).symm.trans hstale
  · rintro ⟨hseen, hstale⟩
    exact ⟨.inl hseen, hstale⟩

/-- The least offset that counts of each partition, among those seen. -/
structure Marks (min : Int32 → Option Offset) (seen : List (Int32 × Offset))
    (marks : PartitionOffsets) : Prop where
  mem_iff : ∀ p, p ∈ marks ↔ (counted min seen p).Nonempty
  isLeast : ∀ {p o}, marks[p]? = some o → IsLeast (counted min seen p) o

theorem marks_nil : Marks min [] ∅ where
  mem_iff p := by simp [counted, Set.Nonempty]
  isLeast h := by simp at h

/-- An offset is taken into account. -/
theorem Marks.note (h : Marks min seen marks) (p : Int32) (o : Offset) :
    Marks min (seen ++ [(p, o)]) (note marks (min p) p o) := by
  unfold Watermark.note
  split
  · rename_i hstale
    refine ⟨fun q ↦ ?_, fun {q o'} hq ↦ ?_⟩ <;> rw [counted_append_of_not_counts fun _ ↦ hstale]
    · exact h.mem_iff q
    · exact h.isLeast hq
  · rename_i hcounts
    have hcounts : isStale (min p) o = false := Bool.not_eq_true _ ▸ hcounts
    refine ⟨fun q ↦ ?_, fun {q o'} hq ↦ ?_⟩
    · by_cases hqp : q = p
      · subst hqp
        rw [counted_append_of_counts hcounts]
        exact iff_of_true Std.ExtTreeMap.mem_insert_self (Set.insert_nonempty ..)
      · have hpq : p ≠ q := fun heq ↦ hqp heq.symm
        rw [counted_append_of_not_counts fun heq ↦ absurd heq hqp, ← h.mem_iff]
        simp [hpq]
    · by_cases hqp : q = p
      · subst hqp
        rw [counted_append_of_counts hcounts]
        rw [Std.ExtTreeMap.getElem?_insert_self, Option.some.injEq] at hq
        subst hq
        cases hmark : marks[q]? with
        | some mark => exact isLeast_insert_lower (h.isLeast hmark) o
        | none =>
            have hempty : counted min seen q = ∅ := by
              rw [← Set.not_nonempty_iff_eq_empty, ← h.mem_iff]
              simpa using hmark
            rw [hempty]
            exact ⟨.inl rfl, by simp [lowerBounds]⟩
      · have hpq : ¬ compare p q = .eq := fun heq ↦ hqp (Std.LawfulEqCmp.eq_of_compare heq).symm
        rw [Std.ExtTreeMap.getElem?_insert, if_neg hpq] at hq
        rw [counted_append_of_not_counts fun heq ↦ absurd heq hqp]
        exact h.isLeast hq

/-- What a query knows: the minima of the partitions that it has seen, each told once. -/
structure Knows (topic : String) (min : Int32 → Option Offset) (told : List TopicPartition)
    (seen : List (Int32 × Offset)) (known : Std.ExtTreeMap Int32 (Option Offset)) : Prop where
  nodup : told.Nodup
  told_iff : ∀ tp, tp ∈ told ↔ tp.topic = topic ∧ tp.partition ∈ known
  seen_iff : ∀ p, p ∈ known ↔ ∃ o, (p, o) ∈ seen
  agrees : ∀ p m, known[p]? = some m → m = min p

/-- A query that asks has not been told of the partition, and has taken into account what it has
seen. -/
structure Sound (topic : String) (min : Int32 → Option Offset) (all : List (Int32 × Offset))
    (told : List TopicPartition) (s : Watermark) : Prop where
  topic_eq : s.topic = topic
  fresh : s.asked.1 ∉ s.known
  split : ∃ seen, all = seen ++ s.asked :: s.rest ∧ Knows topic min told seen s.known ∧
    Marks min seen s.marks

/-- A query that is done has taken all offsets into account. -/
def Accounts (topic : String) (min : Int32 → Option Offset) (all : List (Int32 × Offset))
    (told : List TopicPartition) : Progress Watermark PartitionOffsets → Prop
  | .asks s => Sound topic min all told s
  | .done marks => Marks min all marks ∧ ∃ known, Knows topic min told all known

theorem Knows.seen_again (h : Knows topic min told seen known) (hp : p ∈ known) (o : Offset) :
    Knows topic min told (seen ++ [(p, o)]) known where
  nodup := h.nodup
  told_iff := h.told_iff
  seen_iff q := by
    rw [h.seen_iff]
    constructor
    · rintro ⟨o', ho'⟩
      exact ⟨o', List.mem_append_left _ ho'⟩
    · rintro ⟨o', ho'⟩
      rcases List.mem_append.mp ho' with hseen | hlast
      · exact ⟨o', hseen⟩
      · cases List.mem_singleton.mp hlast
        exact (h.seen_iff _).mp hp
  agrees := h.agrees

theorem accounts_advance (hknows : Knows topic min told seen known) (hmarks : Marks min seen marks)
    (hall : all = seen ++ rest) : Accounts topic min all told (advance topic known marks rest) := by
  induction rest generalizing seen marks with
  | nil =>
      rw [List.append_nil] at hall
      subst hall
      exact ⟨hmarks, known, hknows⟩
  | cons e rest ih =>
      obtain ⟨p, o⟩ := e
      rw [advance]
      split
      · rename_i m hm
        cases hknows.agrees p m hm
        have hp : p ∈ known := Std.ExtTreeMap.mem_iff_isSome_getElem?.mpr (hm ▸ rfl)
        exact ih (hknows.seen_again hp o) (hmarks.note p o) (by simp [hall])
      · rename_i hnone
        exact ⟨rfl, by simpa using hnone, seen, hall, hknows, hmarks⟩

theorem Knows.tell (h : Knows topic min told seen known) (hp : p ∉ known) (o : Offset) :
    Knows topic min (told ++ [⟨topic, p⟩]) (seen ++ [(p, o)]) (known.insert p (min p)) where
  nodup := by
    refine List.nodup_append.mpr ⟨h.nodup, List.nodup_singleton _, ?_⟩
    rintro tp htp _ hlast rfl
    cases List.mem_singleton.mp hlast
    exact hp ((h.told_iff _).mp htp).2
  told_iff tp := by
    obtain ⟨τ, q⟩ := tp
    simp only [List.mem_append, h.told_iff, List.mem_singleton, TopicPartition.mk.injEq,
      Std.ExtTreeMap.mem_insert, Std.LawfulEqCmp.compare_eq_iff_eq]
    grind
  seen_iff q := by
    simp only [Std.ExtTreeMap.mem_insert, Std.LawfulEqCmp.compare_eq_iff_eq, h.seen_iff,
      List.mem_append, List.mem_singleton, Prod.mk.injEq]
    grind
  agrees q m hm := by
    by_cases hq : p = q
    · subst hq
      rw [Std.ExtTreeMap.getElem?_insert_self, Option.some.injEq] at hm
      exact hm.symm
    · have hne : ¬ compare p q = .eq := fun heq ↦ hq (Std.LawfulEqCmp.eq_of_compare heq)
      rw [Std.ExtTreeMap.getElem?_insert, if_neg hne] at hm
      exact h.agrees q m hm

theorem Sound.target_eq (h : Sound topic min all told s) : s.target = ⟨topic, s.asked.1⟩ := by
  rw [target, h.topic_eq]

/-- What a query asks for was not told before. -/
theorem Sound.nodup (h : Sound topic min all told s) : (told ++ [s.target]).Nodup := by
  obtain ⟨seen, -, hknows, -⟩ := h.split
  exact h.target_eq ▸ (hknows.tell h.fresh s.asked.2).nodup

/-- An answer is taken into account. -/
theorem Sound.answer {a : Attempt Offset} (h : Sound topic min all told s)
    (ha : a.toOption = min s.asked.1) :
    Accounts topic min all (told ++ [s.target]) (s.answer a) := by
  obtain ⟨seen, hall, hknows, hmarks⟩ := h.split
  rw [Watermark.answer, h.topic_eq, ha, h.target_eq]
  exact accounts_advance (hknows.tell h.fresh s.asked.2) (hmarks.note s.asked.1 s.asked.2)
    (by simp [hall])

theorem accounts_start (order : Itinerary) (t : OffsetTable) (topic : String)
    (excluded : List String) :
    ∃ all, (∀ p o, (p, o) ∈ all ↔ t.Holds topic excluded p o) ∧
      ∀ min, Accounts topic min all [] (start order t topic excluded) := by
  refine ⟨_, fun p o ↦ ?_, fun min ↦ accounts_advance ⟨.nil, ?_, ?_, ?_⟩ marks_nil rfl⟩
  · simp only [List.nil_append, offsets, List.mem_flatMap, mem_arrange, Prod.exists,
      OffsetTable.mem_offsetsOf, Std.ExtTreeMap.mem_toList_iff_getElem?_eq_some, OffsetTable.Holds,
      OffsetTable.query_eq_bind, Option.bind_eq_some_iff, and_assoc, exists_and_left]
  all_goals simp

/-- The marks over all offsets of a table are its watermark. -/
theorem Marks.isWatermark {t : OffsetTable} {excluded : List String} (h : Marks min all marks)
    (hall : ∀ p o, (p, o) ∈ all ↔ t.Holds topic excluded p o) :
    t.IsWatermark topic excluded min marks := by
  have hcounted : ∀ p, counted min all p = {o | t.Needs topic excluded min p o} := by
    intro p
    ext o
    simp only [counted, Set.mem_ofPred_eq, OffsetTable.Needs, hall, isStale_eq_false_iff]
  refine ⟨fun p ↦ ?_, fun p o hp ↦ hcounted p ▸ h.isLeast hp⟩
  rw [h.mem_iff, hcounted]
  rfl

end Watermark

end GroupOffsets
