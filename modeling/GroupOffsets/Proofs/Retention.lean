import GroupOffsets.Proofs.Sweep.Quiet
import GroupOffsets.Proofs.Watermark.Run

/-!
# Sweeping and the watermark

The watermark of a topic tells retention what may be deleted.  A sweep pass removes entries whose
offsets are all at the retained minimum or below it, and the watermark ignores offsets below the
minimum: they treat the minimum itself differently, and an unknown one too.  Still, a pass in quiet
never lowers a watermark, and it leaves those above the minimum, or without one, where they are.
-/

namespace GroupOffsets

open World (Choice Event)

/-! ## Tables without some entries -/

namespace OffsetTable

variable {t t' : OffsetTable} {removed : List GroupTopic} {topic : String} {excluded : List String}
  {min : TopicPartition → Option Offset} {marks marks' : PartitionOffsets} {k : GroupTopic}
  {p : Int32} {o o' : Offset}

theorem Cleared.query (h : t.Cleared removed t') :
    t'.query k p = if k ∈ removed then none else t.query k p := by
  rw [query_eq_bind, query_eq_bind, h.partitions]
  split <;> rfl

/-- What is needed once some entries are gone was needed before. -/
theorem Cleared.needs (h : t.Cleared removed t')
    (ho : t'.Needs topic excluded (fun p ↦ min ⟨topic, p⟩) p o) :
    t.Needs topic excluded (fun p ↦ min ⟨topic, p⟩) p o := by
  obtain ⟨⟨g, hg, hquery⟩, hretained⟩ := ho
  rw [h.query] at hquery
  split at hquery
  · cases hquery
  · exact ⟨⟨g, hg, hquery⟩, hretained⟩

/-- An offset above the minimum, or without one, does not go with entries that are behind. -/
theorem Cleared.keeps (h : t.Cleared removed t') (hremoved : ∀ k ∈ removed, t.Behind min k)
    (ho : t.Needs topic excluded (fun p ↦ min ⟨topic, p⟩) p o)
    (habove : ∀ m, min ⟨topic, p⟩ = some m → m < o) :
    t'.Needs topic excluded (fun p ↦ min ⟨topic, p⟩) p o := by
  obtain ⟨⟨g, hg, hquery⟩, hretained⟩ := ho
  refine ⟨⟨g, hg, ?_⟩, hretained⟩
  rw [h.query, if_neg, hquery]
  intro hmem
  obtain ⟨offsets, hoffsets, -, hbehind⟩ := hremoved _ hmem
  rw [query_eq_bind, hoffsets, Option.bind_some] at hquery
  obtain ⟨m, hm, hle⟩ := hbehind p o hquery
  exact Int64.not_lt.mpr hle (habove m hm)

/-- What becomes of a watermark when entries go that are behind the retained data. -/
theorem IsWatermark.of_cleared
    (hbefore : t.IsWatermark topic excluded (fun p ↦ min ⟨topic, p⟩) marks)
    (hafter : t'.IsWatermark topic excluded (fun p ↦ min ⟨topic, p⟩) marks')
    (h : t.Cleared removed t') (hremoved : ∀ k ∈ removed, t.Behind min k) (p : Int32) :
    (marks[p]? = none → marks'[p]? = none) ∧
      ∀ o, marks[p]? = some o →
        ((∀ m, min ⟨topic, p⟩ = some m → m < o) → marks'[p]? = some o) ∧
          ∀ o', marks'[p]? = some o' → o ≤ o' := by
  refine ⟨fun hnone ↦ ?_, fun o ho ↦ ⟨fun habove ↦ ?_, fun o' ho' ↦ ?_⟩⟩
  · refine Option.eq_none_iff_forall_ne_some.mpr fun o' ho' ↦ ?_
    have hmem : p ∈ marks := (hbefore.mem_iff p).mpr ⟨o', h.needs (hafter.isLeast p o' ho').1⟩
    have hsome : (marks[p]?).isSome := Std.ExtTreeMap.mem_iff_isSome_getElem?.mp hmem
    rw [hnone] at hsome
    cases hsome
  · have hleast := hbefore.isLeast p o ho
    exact hafter.getElem?_eq_some.mpr
      ⟨h.keeps hremoved hleast.1 habove, fun o' ho' ↦ hleast.2 (h.needs ho')⟩
  · exact (hbefore.isLeast p o ho).2 (h.needs (hafter.isLeast p o' ho').1)

end OffsetTable

/-! ## Queries in quiet -/

namespace World

variable {w : World} {n : Nat} {es es₁ es₂ es₃ : List (Choice × Event)} {topic : String}
  {excluded : List String} {min : TopicPartition → Option Offset} {all : List (Int32 × Offset)}
  {reply : Reply Handle}

theorem stage_of_quiet (hn : n < w.nextCall)
    (h : Watermark.Stage topic (fun p ↦ min ⟨topic, p⟩) all [] w.calls[n]?)
    (hes : w.Quiet n min es) : Watermark.Stage topic (fun p ↦ min ⟨topic, p⟩) all
      ((w.minima n es).map Prod.fst) (w.steps es).calls[n]? := by
  refine stage_steps_watermark hn h fun p a ha ↦ ?_
  obtain ⟨before, after, hminima, -⟩ := List.lookup_eq_some_iff.mp ha
  have hmem : (⟨topic, p⟩, a) ∈ w.minima n es := by simp [hminima]
  exact hes.of_mem_minima hmem

theorem table_of_quiet (hn : n < w.nextCall)
    (h : Watermark.Stage topic (fun p ↦ min ⟨topic, p⟩) all [] w.calls[n]?)
    (hes : w.Quiet n min es) : (w.steps es).bridge.table = w.bridge.table := by
  induction es using List.reverseRecOn with
  | nil => rfl
  | append_singleton es e ih =>
      obtain ⟨ch, e⟩ := e
      obtain ⟨hbefore, -, hother, -⟩ := quiet_append.mp hes
      rw [steps_append]
      refine Eq.trans ?_ (ih hbefore)
      by_cases he : e = .step (.call n)
      · subst he
        exact table_run_watermark (stage_of_quiet hn h hbefore) ch
      · exact (hother he).2.1

/-- A query in quiet answers with the watermark of the table, which stays as it is. -/
theorem watermark_of_quiet (hn : n < w.nextCall)
    (hc : w.calls[n]? = some (.begun (.watermark topic excluded))) (hes : w.Quiet n min es)
    (hreply : (w.steps es).reply? n = some reply) :
    (w.steps es).bridge.table = w.bridge.table ∧ ∃ marks, reply = .offsets (some marks) ∧
      w.bridge.table.IsWatermark topic excluded (fun p ↦ min ⟨topic, p⟩) marks := by
  induction es generalizing w with
  | nil =>
      rw [steps_nil, reply?, hc] at hreply
      cases hreply
  | cons e es ih =>
      obtain ⟨ch, e⟩ := e
      obtain ⟨-, hother, hrest⟩ := hes
      have hn' : n < (w.step ch e).nextCall := Nat.lt_of_lt_of_le hn nextCall_le_step
      by_cases he : e = .step (.call n)
      · subst he
        obtain ⟨all, hall, hbegins⟩ := stage_run_begun_watermark ch hc
        have hbridge : (w.step ch (.step (.call n))).bridge = w.bridge :=
          (run_begun_watermark ch hc).1
        have hstage := stage_of_quiet hn' (hbegins _) hrest
        obtain ⟨c, hcalls, hcr⟩ := Option.bind_eq_some_iff.mp hreply
        rw [steps_cons] at hcalls
        rw [hcalls] at hstage
        obtain ⟨marks, rfl, hmarks, -⟩ := hstage.exists_marks hcr
        cases hcr
        refine ⟨?_, marks, rfl, hmarks.isWatermark hall⟩
        rw [steps_cons, table_of_quiet hn' (hbegins _) hrest, hbridge]
      · obtain ⟨hkept, htable, -⟩ := hother he
        have hc' : (w.step ch e).calls[n]? = some (.begun (.watermark topic excluded)) :=
          (calls_step_of_ne hn he hkept).trans hc
        rw [← htable]
        exact ih hn' hc' hrest hreply

/-- A call that is made in a world runs in quiet until it is answered. -/
structure Answers (min : TopicPartition → Option Offset) (w : World) (r : Request)
    (es : List (Choice × Event)) (reply : Reply Handle) : Prop where
  quiet : (w.call r).2.Quiet w.nextCall min es
  reply : ((w.call r).2.steps es).reply? w.nextCall = some reply

theorem Answers.watermark (h : w.Answers min (.watermark topic excluded) es reply) :
    ((w.call (.watermark topic excluded)).2.steps es).bridge.table = w.bridge.table ∧
      ∃ marks, reply = .offsets (some marks) ∧
        w.bridge.table.IsWatermark topic excluded (fun p ↦ min ⟨topic, p⟩) marks :=
  watermark_of_quiet (Nat.lt_succ_self _) (w.calls_call _) h.quiet h.reply

theorem Answers.sweep (h : w.Answers min .sweep es reply) :
    ∃ removed, reply = .keys removed ∧ (∀ k ∈ removed, w.bridge.table.Behind min k) ∧
      w.bridge.table.Cleared removed ((w.call .sweep).2.steps es).bridge.table := by
  obtain ⟨removed, hreply, -, hremoved, hcleared⟩ :=
    sweep_of_quiet (Nat.lt_succ_self _) (w.calls_call .sweep) h.quiet h.reply
  exact ⟨removed, hreply, fun k hk ↦ ((hremoved k).mp hk).2, hcleared⟩

/-- **Sweeping keeps watermarks.**  A query, a sweep pass and the same query again run in quiet, and
the retained minima stay what they are.  Of a partition without a watermark there is none
afterwards; one above the minimum, or of a partition whose minimum is unknown, stays; and none is
lower than it was, also where it was the minimum itself. -/
theorem sweep_keeps_watermark {asked swept again : Reply Handle}
    (hasked : w.Answers min (.watermark topic excluded) es₁ asked)
    (hswept : ((w.call (.watermark topic excluded)).2.steps es₁).Answers min .sweep es₂ swept)
    (hagain : ((((w.call (.watermark topic excluded)).2.steps es₁).call .sweep).2.steps es₂).Answers
      min (.watermark topic excluded) es₃ again) :
    ∃ before after, asked = .offsets (some before) ∧ again = .offsets (some after) ∧
      ∀ p, (before[p]? = none → after[p]? = none) ∧
        ∀ o, before[p]? = some o →
          ((∀ m, min ⟨topic, p⟩ = some m → m < o) → after[p]? = some o) ∧
            ∀ o', after[p]? = some o' → o ≤ o' := by
  obtain ⟨htable, before, rfl, hbefore⟩ := hasked.watermark
  obtain ⟨removed, -, hremoved, hcleared⟩ := hswept.sweep
  obtain ⟨-, after, rfl, hafter⟩ := hagain.watermark
  rw [htable] at hremoved hcleared
  exact ⟨before, after, rfl, rfl, hbefore.of_cleared hafter hcleared hremoved⟩

/-- A partition that retains the records from offset 5 on, with one group at the minimum and one
above it, and another partition that the store does not have. -/
def retained : World :=
  (new 0 (.new ⟨[], ⟨1, 1, 10, 1⟩, 10⟩ (.new "node" ∅) none)).steps
    [(.plain, .operate (.createPartition ⟨"t", 0⟩)),
      (.plain, .operate (.setRange ⟨"t", 0⟩ ⟨0, 5⟩ ⟨0, 9⟩)),
      (.plain, .operate (.register ⟨"t", 0⟩)), (.plain, .operate (.commit ⟨"g", "t"⟩ 0 5)),
      (.plain, .operate (.commit ⟨"h", "t"⟩ 0 6)), (.plain, .operate (.commit ⟨"h", "t"⟩ 1 2))]

/-- The minima there. -/
def retainedFrom (tp : TopicPartition) : Option Offset := if tp = ⟨"t", 0⟩ then some 5 else none

theorem watermark_rises_above_minimum : ∃ before after : PartitionOffsets,
    before.toList = [(0, 5), (1, 2)] ∧ after.toList = [(0, 6), (1, 2)] ∧
      ∀ (p : Int32) (o : Offset), before[p]? = some o → ∀ o', after[p]? = some o' → o ≤ o' := by
  have hasked : retained.Answers retainedFrom (.watermark "t" [])
      (rounds (List.replicate 8 (.call 0)))
      (.offsets (some (((∅ : PartitionOffsets).insert 0 5).insert 1 2))) :=
    ⟨quiet_rounds (by decide), rfl⟩
  have hswept : ((retained.call (.watermark "t" [])).2.steps
      (rounds (List.replicate 8 (.call 0)))).Answers retainedFrom .sweep
      (rounds (List.replicate 8 (.call 1))) (.keys [⟨"g", "t"⟩]) :=
    ⟨quiet_rounds (by decide), rfl⟩
  have hagain : ((((retained.call (.watermark "t" [])).2.steps
      (rounds (List.replicate 8 (.call 0)))).call .sweep).2.steps
      (rounds (List.replicate 8 (.call 1)))).Answers retainedFrom (.watermark "t" [])
      (rounds (List.replicate 8 (.call 2)))
      (.offsets (some (((∅ : PartitionOffsets).insert 0 6).insert 1 2))) :=
    ⟨quiet_rounds (by decide), rfl⟩
  obtain ⟨before, after, hbefore, hafter, hkept⟩ := sweep_keeps_watermark hasked hswept hagain
  cases hbefore
  cases hafter
  exact ⟨_, _, by decide, by decide, fun p o ho ↦ ((hkept p).2 o ho).2⟩

end World

end GroupOffsets
