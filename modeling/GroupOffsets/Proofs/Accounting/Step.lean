import Mathlib.Algebra.Group.Defs
import GroupOffsets.Proofs.Provenance
import GroupOffsets.Proofs.Resolution.Step
import GroupOffsets.Proofs.Sweep.Quiet

/-!
# What a step counts

A pass counts what it does as it goes, and reports it when it is done.  In between it has counted
something that nobody was told: its `Call.credit`.  With it, what one step adds to the counters is
what it makes known: of a reply, of a caller who is told that a partition took too long, and of a
lookup that found one.
-/

namespace GroupOffsets

/-! ## Sums of counters -/

namespace Metrics

instance : Zero Metrics := ⟨∅⟩

instance : Add Metrics := ⟨add⟩

variable (m m' : Metrics)

@[ext] theorem ext {m m' : Metrics} (hregressions : m.offsetRegressions = m'.offsetRegressions)
    (hremovals : m.sweepRemovals = m'.sweepRemovals)
    (hfailures : m.persistFailures = m'.persistFailures)
    (htimeouts : m.resolutionTimeouts = m'.resolutionTimeouts)
    (hlatencies : m.resolutionLatencies = m'.resolutionLatencies) : m = m' := by
  cases m
  cases m'
  simp_all

theorem zero_eq : (0 : Metrics) = ⟨0, 0, 0, 0, 0⟩ := rfl

theorem add_eq : m + m' = ⟨m.offsetRegressions + m'.offsetRegressions,
    m.sweepRemovals + m'.sweepRemovals, m.persistFailures + m'.persistFailures,
    m.resolutionTimeouts + m'.resolutionTimeouts,
    m.resolutionLatencies + m'.resolutionLatencies⟩ := rfl

instance : AddCommMonoid Metrics where
  add_assoc m m' m'' := by ext <;> simp [add_eq, Nat.add_assoc]
  zero_add m := by ext <;> simp [zero_eq, add_eq]
  add_zero m := by ext <;> simp [zero_eq, add_eq]
  add_comm m m' := by ext <;> simp [add_eq, Nat.add_comm]
  nsmul := nsmulRec

/-- What was counted in the meantime stays counted. -/
theorem add_of_add {m₀ m₁ m₂ s₀ s₁ s₂ o o' : Metrics} (h : m₁ + s₀ = m₀ + o + s₁)
    (h' : m₂ + s₁ = m₁ + o' + s₂) : m₂ + s₀ = m₀ + (o + o') + s₂ := by
  simp only [add_eq, mk.injEq] at h h'
  ext <;> simp only [add_eq] <;> omega

end Metrics

/-! ## What is made known -/

/-- The keys that a sweep pass answers with. -/
def Reply.swept {η : Type} : Reply η → List GroupTopic
  | .keys removed => removed
  | _ => []

/-- The counters of what calls have answered, what they were handed, and which resolutions have
found their partition. -/
def Metrics.counting (answers : List (Reply Handle)) (handed : List (Purpose × Attempt Handle))
    (found : List Nat) : Metrics where
  offsetRegressions := 0
  sweepRemovals := (answers.flatMap Reply.swept).length
  persistFailures := ((answers.filterMap Reply.report?).map PersistReport.failed).sum
  resolutionTimeouts := handed.countP (Bridge.isTimeout ·.2)
  resolutionLatencies := found.length

theorem Metrics.counting_append (answers answers' : List (Reply Handle))
    (handed handed' : List (Purpose × Attempt Handle)) (found found' : List Nat) :
    counting (answers ++ answers') (handed ++ handed') (found ++ found') =
      counting answers handed found + counting answers' handed' found' := by
  ext <;> simp [counting, add_eq]

@[simp] theorem Metrics.counting_nil : counting [] [] [] = 0 := rfl

namespace Call

/-- What a pass under way has counted. -/
def credit (c : Call) : Metrics :=
  match c.purpose? with
  | some (.sweep s) => ⟨0, s.removed.length, 0, 0, 0⟩
  | some (.persist _ s) => ⟨0, 0, s.report.failed, 0, 0⟩
  | _ => 0

/-- What a call has counted, or has made known with its reply. -/
def worth (c : Call) : Metrics :=
  match c.reply? with
  | some r => .counting [r] [] []
  | none => c.credit

variable {c : Call}

theorem credit_of_purpose?_none (h : c.purpose? = none) : c.credit = 0 := by
  rw [credit, h]

theorem credit_of_reply?_isSome (h : c.reply?.isSome) : c.credit = 0 := by
  cases c with
  | answered r => rfl
  | _ => cases h

theorem worth_eq (c : Call) : c.worth = .counting c.reply?.toList [] [] + c.credit := by
  cases c with
  | answered r => exact (add_zero _).symm
  | _ => exact (zero_add _).symm

theorem worth_of_purpose? {p : Purpose} (h : c.purpose? = some p) :
    c.worth = (Call.asking p).credit := by
  cases c <;> cases h <;> rfl

theorem worth_continueSweep (progress : Progress Sweep (List GroupTopic)) :
    (Bridge.continueSweep progress).worth =
      ⟨0, (Sweep.removedOf progress).length, 0, 0, 0⟩ := by
  cases progress with
  | asks s => rfl
  | done removed =>
      exact congrArg (fun keys : List GroupTopic ↦ (⟨0, keys.length, 0, 0, 0⟩ : Metrics))
        (List.append_nil removed)

theorem worth_continueWatermark (progress : Progress Watermark PartitionOffsets) :
    (Bridge.continueWatermark progress).worth = 0 := by
  cases progress <;> rfl

theorem worth_ofPersist (turn : Nat) (progress : Progress Persist PersistReport) :
    (ofPersist turn progress).worth = ⟨0, 0, (Persist.reportOf progress).failed, 0, 0⟩ := by
  cases progress <;> rfl

end Call

/-! ## Passes -/

namespace Sweep

/-- What a pass has removed grows by the entry that its answer removes. -/
theorem length_removedOf_answer (order : Itinerary) (t : OffsetTable)
    (subscriptions : Subscriptions) (s : Sweep) (min : Attempt Offset) :
    (removedOf (s.answer order t subscriptions min).2.2).length =
      s.removed.length + if (s.answer order t subscriptions min).1 then 1 else 0 := by
  unfold answer
  split
  · simp [removedOf_advance]
  · split
    · simp [removedOf_advance]
    · split
      · rfl
      · split <;> simp [removedOf_advance]

end Sweep

namespace Persist

variable {order : Itinerary} {t : OffsetTable} {isSystem : String → Bool}

theorem failed_le_seek (key : GroupTopic) (keys : List GroupTopic) (report : PersistReport)
    (offsets : List (Int32 × Offset)) :
    report.failed ≤ (reportOf (seek key keys report offsets)).failed := by
  fun_induction seek key keys report offsets with
  | case1 report => exact Nat.le_refl _
  | case2 => exact Nat.le_refl _
  | case3 report partition offset rest e he ih => exact Nat.le_trans (Nat.le_succ _) ih

/-- What goes on over more entries loses no failure. -/
theorem failed_le_bind (report : PersistReport) (progress : Progress Persist PersistReport)
    (next : PersistReport → Progress Persist PersistReport) :
    report.failed ≤ (reportOf progress).failed →
      (∀ report : PersistReport, report.failed ≤ (reportOf (next report)).failed) →
      report.failed ≤ (reportOf (match progress with
        | .asks s => .asks s
        | .done report => next report)).failed := by
  intro h hnext
  cases progress with
  | asks s => exact h
  | done report' => exact Nat.le_trans h (hnext report')

theorem failed_le_advance (report : PersistReport) (keys : List GroupTopic) :
    report.failed ≤ (reportOf (advance order t isSystem report keys)).failed := by
  induction keys generalizing report with
  | nil => exact Nat.le_refl _
  | cons key keys ih =>
      rw [advance]
      split
      · exact ih report.noteSystem
      · split
        · exact ih report
        · exact failed_le_bind _ _ _ (failed_le_seek ..) ih

theorem failed_le_answer (s : Persist) (moved : Bool) :
    s.report.failed ≤ (reportOf (s.answer order t isSystem moved)).failed := by
  have hnoted : s.report.failed ≤
      (if moved then s.report.notePersisted else s.report.noteFailed).failed := by
    cases moved
    · exact Nat.le_succ _
    · exact Nat.le_refl _
  refine Nat.le_trans hnoted ?_
  rw [answer]
  exact failed_le_bind _ _ _ (failed_le_seek ..) fun report ↦ failed_le_advance report s.keys

end Persist

namespace Bridge

variable {b : Bridge} {order : Itinerary} {now n : Nat} {draw : Option Nat} {f : Flight} {c : Call}

/-! ## Steps of calls -/

theorem metrics_continuePersist (b : Bridge) (turn : Nat) {before : PersistReport}
    {p : Progress Persist PersistReport} (h : before.failed ≤ (Persist.reportOf p).failed) :
    (b.continuePersist turn before p).1.metrics + ⟨0, 0, before.failed, 0, 0⟩ =
      b.metrics + (b.continuePersist turn before p).2.worth := by
  have hmetrics : (b.continuePersist turn before p).1.metrics =
      b.metrics.notePersistFailures ((Persist.reportOf p).failed - before.failed) := by
    cases p <;> rfl
  rw [hmetrics, continuePersist_snd, Call.worth_ofPersist]
  ext <;> simp only [Metrics.add_eq, Metrics.notePersistFailures, Nat.add_zero]
  omega

/-- A pass that goes on counts what it does. -/
theorem metrics_deliver (b : Bridge) (order : Itinerary) (p : Purpose) (r : Attempt Handle) :
    (b.deliver order p r).1.metrics + (Call.asking p).credit =
      b.metrics + (b.deliver order p r).2.worth := by
  cases p with
  | resolve tp => cases r <;> rfl
  | minOffset tp =>
      simp only [deliver]
      cases b.minOffset r <;> rfl
  | maxOffset tp =>
      simp only [deliver]
      cases b.maxOffset r <;> rfl
  | watermark s =>
      simp only [deliver, Call.worth_continueWatermark]
      rfl
  | sweep s =>
      have hlength := Sweep.length_removedOf_answer order b.table b.subscriptions s (b.minOffset r)
      simp only [deliver, Call.worth_continueSweep, hlength]
      split <;> ext <;> simp [Metrics.add_eq, Metrics.noteSweepRemoval, Call.credit, Call.purpose?]
      omega
  | persist turn s =>
      have hmetrics : (b.moveCursor r s.key.group s.position).2.metrics = b.metrics := by
        obtain ⟨store, hb⟩ := b.moveCursor_eq r s.key.group s.position
        rw [hb]
      rw [← hmetrics]
      exact metrics_continuePersist _ turn (Persist.failed_le_answer ..)

theorem metrics_startPersist (b : Bridge) (order : Itinerary) (turn : Nat) :
    (b.startPersist order turn).1.metrics =
      b.metrics + (b.startPersist order turn).2.worth := by
  have hempty : (∅ : PersistReport).failed ≤
      (Persist.reportOf (Persist.start order b.table b.isSystemGroup)).failed := Nat.zero_le _
  exact b.metrics_continuePersist turn hempty

theorem metrics_ownerAnswers (b : Bridge) (tp : TopicPartition) :
    (b.ownerAnswers tp).1.metrics = b.metrics + (b.ownerAnswers tp).2.worth := by
  obtain ⟨failing, hb⟩ := b.ownerAnswers_eq tp
  have hworth : (b.ownerAnswers tp).2.worth = 0 := by
    simp only [ownerAnswers]
    cases (b.store.locateOwner tp).1 <;> rfl
  rw [hb, hworth, add_zero]

/-- A call that begins, or that waits for something other than a partition. -/
theorem metrics_stepCall_idle (b : Bridge) (order : Itinerary) (now : Nat)
    (hp : c.purpose? = none) : (b.stepCall order now c).1.metrics + c.worth =
      b.metrics + (b.stepCall order now c).2.worth := by
  cases c with
  | asking p => cases hp
  | waiting p n deadline => cases hp
  | begun r =>
      have hworth : (Call.begun r).worth = 0 := rfl
      rw [hworth, add_zero]
      cases r with
      | sweep =>
          have hnothing : Sweep.removedOf (Sweep.start order b.table b.subscriptions) = [] :=
            Sweep.removedOf_advance
          simp only [stepCall, beginCall, Call.worth_continueSweep, hnothing]
          rfl
      | watermark topic excluded =>
          simp only [stepCall, beginCall, Call.worth_continueWatermark]
          rfl
      | persist =>
          simp only [stepCall, beginCall]
          split
          · exact metrics_startPersist _ order _
          · rfl
      | locateOwner tp =>
          simp only [stepCall, beginCall]
          split
          · exact metrics_ownerAnswers _ tp
          · rfl
      | _ => rfl
  | queued turn =>
      simp only [stepCall]
      split
      · exact b.metrics_startPersist order turn
      · rfl
  | sleeping upTo locating =>
      simp only [stepCall]
      split
      · split
        · exact b.metrics_ownerAnswers _
        · rfl
      · rfl
  | answered r => rfl

/-- What a step of a call counts, it makes known or keeps to its credit. -/
theorem metrics_stepCall (b : Bridge) (order : Itinerary) (now : Nat) (c : Call) :
    (b.stepCall order now c).1.metrics + c.worth = b.metrics +
      .counting [] (b.handed now c).toList [] + (b.stepCall order now c).2.worth := by
  cases hh : b.handed now c with
  | some pr =>
      obtain ⟨p, r⟩ := pr
      have htold : (if isTimeout r then b.metrics.noteResolutionTimeout else b.metrics) =
          b.metrics + .counting [] [(p, r)] [] := by
        cases hr : isTimeout r <;> ext <;>
          simp [Metrics.add_eq, Metrics.counting, Metrics.noteResolutionTimeout, hr]
      rw [stepCall_of_handed_eq order hh, Call.worth_of_purpose? (purpose?_of_handed hh),
        Option.toList_some, ← htold]
      exact metrics_deliver _ order p r
  | none =>
      rw [Option.toList_none, Metrics.counting_nil, add_zero]
      cases hp : c.purpose? with
      | none => exact b.metrics_stepCall_idle order now hp
      | some p =>
          obtain ⟨hp', hb⟩ := stepCall_of_not_handed order hp hh
          have hmetrics : (b.stepCall order now c).1.metrics = b.metrics := by
            rcases hb with hb | ⟨-, hb⟩ <;> rw [hb]
            rfl
          rw [hmetrics, Call.worth_of_purpose? hp, Call.worth_of_purpose? hp']

theorem regressions_stepCall (b : Bridge) (order : Itinerary) (now : Nat) (c : Call) :
    (b.stepCall order now c).1.table.regressions = b.table.regressions := by
  obtain hsame | ⟨-, k, herase⟩ := b.table_stepCall_cases order now c
  · rw [hsame]
  · rw [herase]
    rfl

/-! ## Steps of resolutions -/

/-- A partition was found, or not. -/
def sample (found : Bool) : Metrics := ⟨0, 0, 0, 0, if found then 1 else 0⟩

/-- Whether the next step of a resolution judges a lookup that has found its partition. -/
def finds (b : Bridge) (now n : Nat) : Bool :=
  ((b.aloft[n]?).bind (b.judged? now)).any fun l => (l.bind Lookup.handle?).isSome

theorem metrics_conclude (b : Bridge) (draw : Option Nat) (now n : Nat) (f : Flight)
    (l : Option Lookup) : (b.conclude draw now n f l).metrics =
      b.metrics + sample (l.bind Lookup.handle?).isSome := by
  cases hfound : l.bind Lookup.handle? with
  | none =>
      obtain ⟨outcome, -, hb⟩ | ⟨backoff, upTo, hb⟩ := b.conclude_of_not_found hfound
      all_goals
        rw [hb]
        rfl
  | some h =>
      have hl : l = some (.found h) := by
        obtain ⟨l, rfl, hh⟩ := Option.bind_eq_some_iff.mp hfound
        cases l <;> cases hh
        rfl
      rw [hl, conclude_found]
      rfl

theorem metrics_answerLookup (b : Bridge) (draw : Option Nat) (now n : Nat) (f : Flight) :
    (b.answerLookup draw now n f).metrics =
      b.metrics + sample (b.store.lookup f.target).1.handle?.isSome :=
  metrics_conclude _ draw now n f (some (b.store.lookup f.target).1)

theorem metrics_beginLookup (b : Bridge) (draw : Option Nat) (now n : Nat) (f : Flight) :
    (b.beginLookup draw now n f).metrics = b.metrics + sample
      (decide (b.store.lookupDelay = 0) && (b.store.lookup f.target).1.handle?.isSome) := by
  have hsame : b.store.beginLookup.lookupDelay = b.store.lookupDelay := rfl
  simp only [beginLookup, hsame]
  split
  · rename_i hdelay
    rw [metrics_answerLookup, Store.lookup_beginLookup]
    simp [hdelay]
  · rename_i hdelay
    simp only [hdelay, decide_false, Bool.false_and]
    rfl

/-- A step of a resolution counts a lookup that has found its partition, and nothing else. -/
theorem metrics_stepFlight (b : Bridge) (draw : Option Nat) (now n : Nat) :
    (b.stepFlight draw now n).metrics = b.metrics + sample (b.finds now n) := by
  have hkeeps : b.metrics = b.metrics + sample false := rfl
  rw [stepFlight, finds]
  cases hf : b.aloft[n]? with
  | none => exact hkeeps
  | some f =>
      simp only [Option.bind_some, judged?]
      cases f.phase with
      | boarding =>
          dsimp only
          cases hget : b.cache.get? f.target with
          | some h =>
              simp only [Option.isNone_some, Bool.false_eq_true, false_and, if_false]
              exact hkeeps
          | none =>
              dsimp only
              rw [metrics_beginLookup]
              by_cases hdelay : b.store.lookupDelay = 0 <;> simp [hdelay, Flight.depart]
      | locating answerAt giveUpAt =>
          dsimp only
          split
          · exact b.metrics_answerLookup draw now n f
          · split
            · exact b.metrics_conclude draw now n f none
            · exact hkeeps
      | pausing upTo =>
          dsimp only
          split
          · rename_i hup
            rw [metrics_beginLookup]
            by_cases hdelay : b.store.lookupDelay = 0 <;> simp [hdelay, hup]
          · rename_i hup
            simp only [hup, false_and, if_false]
            exact hkeeps

/-! ## Operations -/

/-- What the table has counted itself. -/
def regressed (b : Bridge) : Metrics := ⟨b.table.regressions, 0, 0, 0, 0⟩

theorem regressed_register (b : Bridge) (order : List Nat) (h : Handle) :
    (b.register order h).2.2.regressed = b.regressed := by
  simp only [regressed, register, regressions_seedCursors]

/-- An operation counts the commits that rewind, as the table does. -/
theorem metrics_operate (b : Bridge) (op : Operation) :
    (b.operate op).2.metrics + b.regressed = b.metrics + (b.operate op).2.regressed := by
  cases op with
  | commit k p o =>
      simp only [operate, commit, Metrics.commit, regressed, OffsetTable.commit]
      split <;> ext <;> simp [Metrics.add_eq, Metrics.noteRegression]
      omega
  | cloneGroup source dest topic =>
      have hsame : (b.table.cloneGroup source dest topic).regressions = b.table.regressions := by
        rw [OffsetTable.cloneGroup]
        split <;> rfl
      simp only [operate, regressed, hsame]
  | register tp =>
      simp only [operate]
      split
      · rfl
      · simp only [registered, regressed_register]
        rfl
  | registerDetached p =>
      simp only [operate, registered, regressed_register]
      rfl
  | setRange | append | roll | trim | openCursor | resetCursor =>
      simp only [operate, onPartition]
      split <;> rfl
  | range | cursor | cursors =>
      simp only [operate, atPartition]
      split <;> rfl
  | _ => rfl

end Bridge

end GroupOffsets
