import Mathlib.Algebra.BigOperators.Group.List.Basic
import GroupOffsets.Proofs.Minima
import GroupOffsets.Proofs.Watermark.Fold

/-!
# A watermark query in a run

A run of a world steps call `n`, which is a watermark query, and does anything else in between.
`Watermark.Stage` ties the state of the query to what it was told, and is kept by every step of it.
The table is looked at once, when the query begins.
-/

namespace GroupOffsets

open World (Choice Event Attends)

/-! ## How long a query takes -/

namespace Call

/-- A watermark query comes to no more partitions than there are offsets left. -/
def Measure.watermark : Measure where
  request _ _ := none
  purpose _
    | .watermark s => some s.rest.length
    | _ => none

theorem Measure.settles_advance (topic : String) (known : Std.ExtTreeMap Int32 (Option Offset))
    (marks : PartitionOffsets) (rest : List (Int32 × Offset)) (b : Bridge) :
    watermark.Settles rest.length b
      (Bridge.continueWatermark (Watermark.advance topic known marks rest)) := by
  induction rest generalizing marks with
  | nil => exact .inl ⟨_, rfl⟩
  | cons e rest ih =>
      obtain ⟨p, o⟩ := e
      rw [Watermark.advance]
      split
      · rename_i m hm
        obtain hdone | ⟨q, l, hq, hl, hlt⟩ := ih (Watermark.note marks m p o)
        · exact .inl hdone
        · exact .inr ⟨q, l, hq, hl, Nat.lt_succ_of_lt hlt⟩
      · exact .inr ⟨_, _, rfl, rfl, Nat.lt_succ_self _⟩

theorem Measure.falls_watermark : watermark.Falls where
  beginCall _ _ hl := by cases hl
  deliver {b p l} order r hl := by
    cases p with
    | watermark s =>
        cases hl
        exact settles_advance ..
    | _ => cases hl

theorem Measure.bears_watermark (t t' : OffsetTable) : watermark.Bears t t' where
  request hl := by cases hl
  purpose hl := ⟨_, Nat.le_refl _, hl⟩

end Call

namespace Watermark

variable {topic : String} {min : Int32 → Option Offset} {all : List (Int32 × Offset)}
  {told : List TopicPartition}

theorem length_offsets (order : Itinerary) (t : OffsetTable) (excluded : List String) :
    (offsets order t topic excluded).length =
      ((t.offsetsOf topic excluded).map fun e ↦ e.2.size).sum := by
  have hsize : ∀ e : String × PartitionOffsets,
      (arrange (order.partitions ⟨e.1, topic⟩) e.2.toList).length = e.2.size :=
    fun e ↦ (arrange_perm ..).length_eq.trans Std.ExtTreeMap.length_toList
  rw [offsets, List.length_flatMap]
  simp only [hsize]
  exact ((arrange_perm order.entries _).map _).sum_eq

/-- Where a query stands that was told the minima of these partitions. -/
inductive Stage (topic : String) (min : Int32 → Option Offset) (all : List (Int32 × Offset)) :
    List TopicPartition → Option Call → Prop
  | passing {told : List TopicPartition} {c : Call} {s : Watermark}
      (purpose : c.purpose? = some (.watermark s)) (sound : Sound topic min all told s) :
      Stage topic min all told (some c)
  | answered {told : List TopicPartition} {marks : PartitionOffsets}
      (accounts : Accounts topic min all told (.done marks)) :
      Stage topic min all told (some (.answered (.offsets (some marks))))
  | cancelled {told : List TopicPartition} (nodup : told.Nodup) : Stage topic min all told none

theorem Accounts.stage {progress : Progress Watermark PartitionOffsets}
    (h : Accounts topic min all told progress) :
    Stage topic min all told (some (Bridge.continueWatermark progress)) := by
  cases progress with
  | asks s => exact .passing rfl h
  | done marks => exact .answered h

/-- A query that is answered has marks for all offsets. -/
theorem Stage.exists_marks {c : Call} {reply : Reply Handle}
    (h : Stage topic min all told (some c)) (hreply : c.reply? = some reply) :
    ∃ marks, c = .answered (.offsets (some marks)) ∧ Accounts topic min all told (.done marks) := by
  cases h with
  | passing purpose _ =>
      cases c with
      | answered _ => cases purpose
      | _ => cases hreply
  | answered accounts => exact ⟨_, rfl, accounts⟩

theorem Stage.nodup {o : Option Call} (h : Stage topic min all told o) :
    (told ++ ((o.bind Call.purpose?).map Purpose.target).toList).Nodup := by
  cases h with
  | passing purpose sound =>
      rw [Option.bind_some, purpose]
      exact sound.nodup
  | answered accounts =>
      obtain ⟨-, known, hknows⟩ := accounts
      simpa [Call.purpose?] using hknows.nodup
  | cancelled nodup => simpa using nodup

end Watermark

namespace World

/-- The partition that call `n` needs at present. -/
def needed? (w : World) (n : Nat) : Option TopicPartition :=
  (w.calls[n]?.bind Call.purpose?).map Purpose.target

variable {w : World} {n : Nat} {ch : Choice} {e : Event} {es : List (Choice × Event)} {c : Call}
  {s : Watermark} {topic : String} {excluded : List String} {min : Int32 → Option Offset}
  {all : List (Int32 × Offset)} {told : List TopicPartition}

/-- The first step of a query copies the offsets. -/
theorem run_begun_watermark (ch : Choice)
    (h : w.calls[n]? = some (.begun (.watermark topic excluded))) :
    (w.run ch (.call n)).bridge = w.bridge ∧
      (w.run ch (.call n)).calls[n]? = some (Bridge.continueWatermark
        (Watermark.start ch.order w.bridge.table topic excluded)) := by
  simp [run_call_of_some h, Bridge.stepCall, Bridge.beginCall]

/-- A later step of a query waits, or goes on with a minimum. -/
theorem run_watermark (ch : Choice) (hc : w.calls[n]? = some c)
    (hp : c.purpose? = some (.watermark s)) :
    (w.run ch (.call n)).bridge.table = w.bridge.table ∧
      (w.minimum? n = none ∧ (∃ c', (w.run ch (.call n)).calls[n]? = some c' ∧
          c'.purpose? = some (.watermark s)) ∨
        ∃ a, w.minimum? n = some (s.target, a) ∧
          (w.run ch (.call n)).calls[n]? = some (Bridge.continueWatermark (s.answer a))) := by
  rcases run_call_of_purpose ch hc hp with
    ⟨hh, htable, -, hc'⟩ | ⟨r, metrics, hh, hbridge, hc'⟩
  · exact ⟨htable, .inl ⟨minimum?_of_not_handed hc hh, hc'⟩⟩
  · rw [hbridge]
    exact ⟨rfl, .inr ⟨_, minimum?_of_handed hc hh, hc'⟩⟩

/-- A query leaves the table alone. -/
theorem table_run_watermark (h : Watermark.Stage topic min all told w.calls[n]?) (ch : Choice) :
    (w.run ch (.call n)).bridge.table = w.bridge.table := by
  generalize hc : w.calls[n]? = o at h
  cases h with
  | passing purpose sound => exact (run_watermark ch hc purpose).1
  | answered accounts =>
      rw [bridge_run_call hc]
      rfl
  | cancelled nodup => rw [run_call_of_none hc]

/-- A step of the query itself. -/
theorem stage_run_watermark (h : Watermark.Stage topic min all told w.calls[n]?)
    (hmin : ∀ p a, w.minimum? n = some (⟨topic, p⟩, a) → ⟨topic, p⟩ ∉ told → a.toOption = min p)
    (ch : Choice) : Watermark.Stage topic min all (told ++ (w.minimum? n).toList.map Prod.fst)
      (w.run ch (.call n)).calls[n]? := by
  generalize hc : w.calls[n]? = o at h
  cases h with
  | @passing c s purpose sound =>
      obtain ⟨-, ⟨hnone, c', hc', hp'⟩ | ⟨a, ha, hc'⟩⟩ := run_watermark ch hc purpose
      · rw [hc', hnone]
        simpa using Watermark.Stage.passing hp' sound
      · have hfresh : s.target ∉ told := fun hmem ↦
          (List.nodup_append.mp sound.nodup).2.2 _ hmem _ List.mem_cons_self rfl
        have hanswer : a.toOption = min s.asked.1 :=
          hmin _ a (sound.target_eq ▸ ha) (sound.target_eq ▸ hfresh)
        rw [hc', ha]
        exact (sound.answer hanswer).stage
  | answered accounts =>
      have hnone : w.minimum? n = none := minimum?_of_purpose?_none (by rw [hc]; rfl)
      rw [calls_run_call hc, hnone]
      simpa [Bridge.stepCall] using Watermark.Stage.answered accounts
  | cancelled nodup =>
      have hnone : w.minimum? n = none := minimum?_of_purpose?_none (by rw [hc]; rfl)
      rw [run_call_of_none hc, hc, hnone]
      simpa using Watermark.Stage.cancelled nodup

/-- A query stays sound, whatever happens between its steps. -/
theorem stage_steps_watermark (hn : n < w.nextCall)
    (h : Watermark.Stage topic min all [] w.calls[n]?)
    (hmin : ∀ p a, (w.minima n es).lookup ⟨topic, p⟩ = some a → a.toOption = min p) :
    Watermark.Stage topic min all ((w.minima n es).map Prod.fst) (w.steps es).calls[n]? := by
  induction es using List.reverseRecOn with
  | nil => exact h
  | append_singleton es e ih =>
      obtain ⟨ch, e⟩ := e
      have hn' : n < (w.steps es).nextCall := Nat.lt_of_lt_of_le hn nextCall_le_steps
      rw [steps_append]
      by_cases hown : e = .step (.call n)
      · subst hown
        have hminima : w.minima n (es ++ [(ch, .step (.call n))]) =
            w.minima n es ++ ((w.steps es).minimum? n).toList := trace_concat_own
        rw [hminima] at hmin ⊢
        rw [List.map_append]
        -- the first answer for a partition is the one that counts, and there is no other
        refine stage_run_watermark (ih fun p a ha ↦ ?_) (fun p a ha hfresh ↦ ?_) ch
        · exact hmin p a (by rw [List.lookup_append, ha, Option.some_or])
        · have hnone : (w.minima n es).lookup ⟨topic, p⟩ = none := by
            refine List.lookup_eq_none_iff.mpr fun x hx ↦ ?_
            have hne : x.1 ≠ ⟨topic, p⟩ := fun heq ↦ hfresh (heq ▸ List.mem_map_of_mem hx)
            simpa using hne.symm
          exact hmin p a (by rw [List.lookup_append, hnone, Option.none_or, ha]; simp)
      · have hminima : w.minima n (es ++ [(ch, e)]) = w.minima n es := trace_concat_of_ne hown
        rw [hminima] at hmin ⊢
        have hstage := ih hmin
        by_cases hcancel : e = .cancel n
        · rw [hcancel, steps_cons, steps_nil, calls_cancel]
          exact .cancelled (List.nodup_append.mp hstage.nodup).1
        · rw [steps_cons, steps_nil, calls_step_of_ne hn' hown hcancel]
          exact hstage

/-- The first step of a query looks at all offsets that the table holds at that moment. -/
theorem stage_run_begun_watermark (ch : Choice)
    (hc : w.calls[n]? = some (.begun (.watermark topic excluded))) :
    ∃ all, (∀ p o, (p, o) ∈ all ↔ w.bridge.table.Holds topic excluded p o) ∧
      ∀ min, Watermark.Stage topic min all [] (w.run ch (.call n)).calls[n]? := by
  rw [(run_begun_watermark ch hc).2]
  obtain ⟨all, hall, haccounts⟩ :=
    Watermark.accounts_start ch.order w.bridge.table topic excluded
  exact ⟨all, hall, fun min ↦ (haccounts min).stage⟩

/-- The answer for each partition of a topic, if there was one. -/
def answers (topic : String) (told : List (TopicPartition × Attempt Offset)) (p : Int32) :
    Option Offset := (told.lookup ⟨topic, p⟩).bind Except.toOption

/-- **The watermark.**  What a query answers is a function of the table as it was when the query
began, and of one answer for each partition: the one that the query was told.  It is told of each
partition on which it found an offset, and of none twice, while anything may happen between its
steps; those leave the table alone.  If it is run often enough, it is answered. -/
theorem watermark_is_exact (w : World) (n : Nat) (ch : Choice) (topic : String)
    (excluded : List String) (hn : n < w.nextCall)
    (hc : w.calls[n]? = some (.begun (.watermark topic excluded)))
    (es : List (Choice × Event)) :
    let t := w.bridge.table
    let u := w.step ch (.step (.call n))
    let told := u.minima n es
    u.bridge.table = t ∧
    (∀ done rest ch', es = done ++ rest →
      ((u.steps done).run ch' (.call n)).bridge.table = (u.steps done).bridge.table) ∧
    (told.map Prod.fst ++ ((u.steps es).needed? n).toList).Nodup ∧
    (∀ reply, (u.steps es).reply? n = some reply →
      (∀ tp, tp ∈ told.map Prod.fst ↔
        tp.topic = topic ∧ ∃ o, t.Holds topic excluded tp.partition o) ∧
      ∃ marks, reply = .offsets (some marks) ∧
        ∀ marks', t.IsWatermark topic excluded (answers topic told) marks' ↔ marks' = marks) ∧
    (Attends (.call n) w.bridge.settings.callerWait
        (2 * ((t.offsetsOf topic excluded).map fun e ↦ e.2.size).sum) es →
      (∀ ch', (ch', .cancel n) ∉ es) → ∃ reply, (u.steps es).reply? n = some reply) := by
  intro t u told
  have hu : u.bridge = w.bridge := (run_begun_watermark ch hc).1
  have hn' : n < u.nextCall := Nat.lt_of_lt_of_le hn nextCall_le_step
  obtain ⟨all, hall, hbegins⟩ := stage_run_begun_watermark ch hc
  have hstage : ∀ done, Watermark.Stage topic (answers topic (u.minima n done)) all
      ((u.minima n done).map Prod.fst) (u.steps done).calls[n]? := fun done ↦
    stage_steps_watermark hn' (hbegins _) fun p a ha ↦ by rw [answers, ha, Option.bind_some]
  refine ⟨congrArg Bridge.table hu, fun done _ ch' _ ↦ table_run_watermark (hstage done) ch',
    (hstage es).nodup, fun reply hreply ↦ ?_, fun hattends hkept ↦ ?_⟩
  · obtain ⟨c, hcalls, hcr⟩ := Option.bind_eq_some_iff.mp hreply
    have hdone := hstage es
    rw [hcalls] at hdone
    obtain ⟨marks, rfl, hmarks, known, hknows⟩ := hdone.exists_marks hcr
    cases hcr
    refine ⟨fun tp ↦ ?_, marks, rfl, fun marks' ↦ ?_⟩
    · rw [hknows.told_iff, hknows.seen_iff]
      simp only [hall, t]
    · have hwatermark := hmarks.isWatermark hall
      exact ⟨hwatermark.unique, fun heq ↦ heq ▸ hwatermark⟩
  · have hsettles := Call.Measure.settles_advance topic ∅ ∅
      (Watermark.offsets ch.order t topic excluded) u.bridge
    rw [Watermark.length_offsets] at hsettles
    have hnears := nearsReply_of_settles hn' (run_begun_watermark ch hc).2 hsettles
    exact hnears.exists_reply_of_bears Call.Measure.falls_watermark
      (bears_of_kept Call.Measure.bears_watermark hkept) (hu ▸ hattends)

/-- A partition that retains the records from offset 5 on, and another one that the store does not
have.  Of two groups with offsets there one is behind the retained data; a third one is not
asked about. -/
def lagging : World :=
  (new 0 (.new ⟨[], ⟨1, 1, 10, 1⟩, 10⟩ (.new "node" ∅) none)).steps
    [(.plain, .operate (.createPartition ⟨"t", 0⟩)),
      (.plain, .operate (.setRange ⟨"t", 0⟩ ⟨0, 5⟩ ⟨0, 9⟩)),
      (.plain, .operate (.register ⟨"t", 0⟩)), (.plain, .operate (.commit ⟨"g", "t"⟩ 0 3)),
      (.plain, .operate (.commit ⟨"h", "t"⟩ 0 7)), (.plain, .operate (.commit ⟨"h", "t"⟩ 1 2)),
      (.plain, .operate (.commit ⟨"x", "t"⟩ 0 6)), (.plain, .call (.watermark "t" ["x"]))]

theorem watermark_of_lagging_group :
    let u := lagging.step .plain (.step (.call 0))
    let es := rounds (List.replicate 6 (.call 0))
    (u.minima 0 es).map Prod.fst = [⟨"t", 0⟩, ⟨"t", 1⟩] ∧
    ∃ marks, (u.steps es).reply? 0 = some (.offsets (some marks)) ∧
      marks.toList = [(0, 7), (1, 2)] ∧
      lagging.bridge.table.IsWatermark "t" ["x"] (answers "t" (u.minima 0 es)) marks := by
  have hcomes : ((lagging.step .plain (.step (.call 0))).steps
      (rounds (List.replicate 6 (.call 0)))).reply? 0 =
        some (.offsets (some (((∅ : PartitionOffsets).insert 0 7).insert 1 2))) := rfl
  obtain ⟨-, -, -, hanswers, hdone⟩ :=
    watermark_is_exact lagging 0 .plain "t" ["x"] (by decide) rfl
      (rounds (List.replicate 6 (.call 0)))
  obtain ⟨reply, hreply⟩ := hdone (attends_rounds (.call 0) (by decide) 6) (by simp [rounds])
  obtain ⟨-, marks, rfl, hmarks⟩ := hanswers reply hreply
  cases hreply.symm.trans hcomes
  exact ⟨by decide, _, hreply, by decide, (hmarks _).mpr rfl⟩

end World

end GroupOffsets
