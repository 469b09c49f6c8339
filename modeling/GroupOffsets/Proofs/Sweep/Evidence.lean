import GroupOffsets.Proofs.Sweep.Run

/-!
# What a sweep pass removes

A pass removes an entry only on evidence: at that moment the entry was what the pass had examined,
partition by partition, and each of its offsets had been found to be behind the retained data.  In
doubt it keeps the entry, and it touches nothing else in the table.
-/

namespace GroupOffsets

open World (Choice Event)

namespace World

variable {w : World} {n : Nat} {ch : Choice} {found : List Finding}

theorem DropsAtMost.evidence (h : w.DropsAtMost n ch found) :
    ∀ k ∈ w.drops n ch, ∃ offsets, w.bridge.table.partitions k = some offsets ∧ offsets ≠ ∅ ∧
      ∀ p o, offsets[p]? = some o → ∃ m, ⟨k, p, .ok m⟩ ∈ found ∧ o ≤ m := by
  rcases h with ⟨-, hd⟩ | ⟨k, offsets, hd, hk, hne, -, hbehind⟩
  · simp [hd]
  · rw [hd]
    intro k' hk'
    rw [List.mem_singleton.mp hk']
    exact ⟨offsets, hk, hne, fun _ _ hp ↦ hbehind hp⟩

theorem DropsAtMost.frame (h : w.DropsAtMost n ch found) :
    (∀ k, (w.run ch (.call n)).bridge.table.partitions k =
        if k ∈ w.drops n ch then none else w.bridge.table.partitions k) ∧
      (w.run ch (.call n)).bridge.table.regressions = w.bridge.table.regressions := by
  rcases h with ⟨ht, hd⟩ | ⟨k, _, hd, -, -, ht, -⟩
  · simp [ht, hd]
  · rw [ht, hd]
    refine ⟨fun k' ↦ ?_, rfl⟩
    simp only [OffsetTable.partitions_erase, List.mem_singleton]

/-- A sweep pass is call `n` of a run, in which anything may happen between its steps.  Whatever
entry a step of it drops had only offsets that the pass was told, in as many words, to be behind
the retained data, and nothing else in the table changes.  No entry with a partition whose minimum
it failed to obtain is removed by it, and its answer lists what it removed, each key once. -/
theorem sweep_removes_on_evidence (w : World) (es : List (Choice × Event)) (ch : Choice) :
    let n := w.nextCall
    let v := (w.call .sweep).2
    let u := v.steps es
    (∀ k ∈ u.drops n ch, ∃ offsets, u.bridge.table.partitions k = some offsets ∧ offsets ≠ ∅ ∧
        ∀ p o, offsets[p]? = some o →
          ∃ m, ⟨k, p, .ok m⟩ ∈ v.findings n (es ++ [(ch, .step (.call n))]) ∧ o ≤ m) ∧
      (∀ k, (u.run ch (.call n)).bridge.table.partitions k =
        if k ∈ u.drops n ch then none else u.bridge.table.partitions k) ∧
      (u.run ch (.call n)).bridge.table.regressions = u.bridge.table.regressions ∧
      (∀ k p e, ⟨k, p, .error e⟩ ∈ v.findings n es → k ∉ v.removals n es) ∧
      (v.removals n es).Nodup ∧
      ∀ reply, u.reply? n = some reply → reply = .keys (v.removals n es) := by
  intro n v u
  have hstage : Sweep.Stage (v.findings n es) (v.removals n es) u.calls[n]? := stage_steps w es
  have hdrops : u.DropsAtMost n ch (v.findings n (es ++ [(ch, .step (.call n))])) := by
    rw [findings, trace_concat_own]
    exact (stage_run hstage).1
  refine ⟨hdrops.evidence, hdrops.frame.1, hdrops.frame.2, ?_, hstage.clean.nodup, ?_⟩
  · intro k p e he
    exact hstage.clean.failed he
  · intro reply hreply
    obtain ⟨c, hc, hr⟩ := Option.bind_eq_some_iff.mp hreply
    exact (hc ▸ hstage).reply_eq hr

end World

end GroupOffsets
