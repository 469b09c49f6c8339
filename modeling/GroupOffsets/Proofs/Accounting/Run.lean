import Mathlib.Algebra.BigOperators.Group.Finset.Basic
import Mathlib.Tactic.Abel
import GroupOffsets.Proofs.Accounting.Step
import GroupOffsets.Proofs.Resolution.Callers

/-!
# The counters agree with the results

A run of a bridge shows what calls and passes answer, how their resolves end, and which resolutions
find their partition.  The counters are sums over that, once every pass is done; until then they are
ahead by the credits of the passes.
-/

namespace GroupOffsets

open World (Choice Event Task Use)

/-- The task that a use runs. -/
def World.Use.task? : Use → Option Task
  | .event _ (.step τ) => some τ
  | _ => none

theorem World.Use.eq_of_task? {u : Use} {τ : Task} (h : u.task? = some τ) :
    ∃ ch, u = .event ch (.step τ) := by
  cases u with
  | event ch e =>
      cases e with
      | step τ' =>
          cases h
          exact ⟨ch, rfl⟩
      | _ => cases h
  | _ => cases h

namespace World

/-! ## What a run shows -/

section Shows

variable (w : World)

/-- The answer that a call gets, or a pass of a loop. -/
def replies : Use → List (Reply Handle)
  | .event ch (.step τ) =>
    match w.callOf τ with
    | none => []
    | some c =>
      if c.reply?.isSome then [] else (w.bridge.stepCall ch.order w.now c).2.reply?.toList
  | _ => []

/-- How a resolve ends that a call has made, or a pass, with what it was made for. -/
def resolves : Use → List (Purpose × Attempt Handle)
  | .event _ (.step τ) => ((w.callOf τ).bind (w.bridge.handed w.now)).toList
  | _ => []

/-- The resolution that judges a lookup which has found its partition. -/
def finds : Use → List Nat
  | .event _ (.step (.flight n)) => if w.bridge.finds w.now n then [n] else []
  | _ => []

/-- What a use shows of what is counted. -/
def counts (u : Use) : Metrics := .counting (w.replies u) (w.resolves u) (w.finds u)

/-- No call or pass is given up while it needs a partition, also not by the start of new loops. -/
def LetsFinish : Use → Prop
  | .event _ (.cancel n) => ∀ c, w.callOf (.call n) = some c → c.purpose? = none
  | .event _ (.serve _ _) =>
    ∀ τ c, τ = .sweeper ∨ τ = .persister → w.callOf τ = some c → c.purpose? = none
  | _ => True

/-- Everything that is shown in the course of some uses. -/
def seen {α : Type} (f : World → Use → List α) : World → List Use → List α
  | _, [] => []
  | w, u :: us => f w u ++ seen f (w.use u) us

/-- The credit of the call that a task runs. -/
def credit (τ : Task) : Metrics := ((w.callOf τ).map Call.credit).getD 0

/-- What the counters are ahead of what has been shown. -/
def stock (S : Finset Task) : Metrics := w.bridge.regressed + ∑ τ ∈ S, w.credit τ

/-- Calls have numbers that were given out. -/
def Numbered : Prop := ∀ n, w.nextCall ≤ n → w.calls[n]? = none

end Shows

variable {w : World} {u : Use} {us : List Use} {ch : Choice} {e : Event} {τ τ' : Task} {c : Call}
variable {n : Nat} {S : Finset Task}

/-! ## Credits -/

theorem credit_eq_zero (h : ∀ c, w.callOf τ = some c → c.purpose? = none) : w.credit τ = 0 := by
  rw [credit]
  cases hc : w.callOf τ with
  | none => rfl
  | some c => exact Call.credit_of_purpose?_none (h c hc)

theorem credit_congr {w' : World} (h : w'.callOf τ = w.callOf τ) : w'.credit τ = w.credit τ := by
  rw [credit, credit, h]

theorem numbered_step (h : w.Numbered) (ch : Choice) (e : Event) : (w.step ch e).Numbered := by
  intro n hn
  have hold : w.calls[n]? = none := h n (Nat.le_trans nextCall_le_step hn)
  cases e with
  | call r =>
      have hne : w.nextCall ≠ n := Nat.ne_of_lt hn
      simpa [step, call, Std.ExtTreeMap.getElem?_insert, Std.LawfulEqCmp.compare_eq_iff_eq, hne]
        using hold
  | step τ =>
      cases τ with
      | flight m => exact hold
      | call m =>
          cases hm : w.calls[m]? with
          | none => rwa [step, run_call_of_none hm]
          | some c =>
              have hne : m ≠ n := fun heq ↦ by
                subst heq
                cases hm.symm.trans hold
              simpa [step, run_call_of_some hm, Std.ExtTreeMap.getElem?_insert,
                Std.LawfulEqCmp.compare_eq_iff_eq, hne] using hold
      | sweeper =>
          simp only [step, run]
          split <;> exact hold
      | persister =>
          simp only [step, run]
          split <;> exact hold
  | cancel m =>
      simp only [step, cancel]
      split
      · exact hold
      · simp [Std.ExtTreeMap.getElem?_erase, hold]
  | _ => exact hold

theorem numbered_use (h : w.Numbered) (u : Use) : (w.use u).Numbered := by
  cases u with
  | event ch e => exact numbered_step h ch e
  | _ => exact h

theorem numbered_new (now : Nat) (b : Bridge) : (new now b).Numbered :=
  fun _ _ ↦ Std.ExtTreeMap.getElem?_empty

theorem numbered_uses (h : w.Numbered) (us : List Use) : (w.uses us).Numbered :=
  uses_of_use Numbered (fun _ u h ↦ numbered_use h u) h us

/-- Nobody's credit changes but by steps of their own. -/
theorem credit_step (hw : w.Numbered) (hu : w.LetsFinish (.event ch e)) (he : e ≠ .step τ) :
    (w.step ch e).credit τ = w.credit τ := by
  cases e with
  | operate op => exact credit_congr (by cases τ <;> rfl)
  | call r =>
      by_cases hτ : τ = .call w.nextCall
      · subst hτ
        rw [credit_eq_zero, credit_eq_zero]
        · intro c hc
          cases (hw _ (Nat.le_refl _)).symm.trans hc
        · intro c hc
          cases (w.calls_call r).symm.trans hc
          rfl
      · exact credit_congr (callOf_call_of_ne r hτ)
  | step τ' => exact credit_congr (callOf_run_of_ne w ch fun heq ↦ he (heq ▸ rfl))
  | cancel m =>
      by_cases hτ : τ = .call m
      · subst hτ
        rw [credit_eq_zero hu, credit_eq_zero]
        intro c hc
        cases calls_cancel.symm.trans hc
      · exact credit_congr (callOf_cancel_of_ne hτ)
  | serve sweepEvery persistEvery =>
      cases τ with
      | sweeper => exact (credit_eq_zero fun c ↦ hu .sweeper c (.inl rfl)).symm
      | persister => exact (credit_eq_zero fun c ↦ hu .persister c (.inr rfl)).symm
      | _ => rfl
  | stop => exact credit_congr (callOf_stop τ)
  | elapse ms => exact credit_congr (by cases τ <;> rfl)

/-! ## Steps of tasks -/

theorem credit_run (hc : w.callOf τ = some c) :
    (w.run ch τ).credit τ = (w.bridge.stepCall ch.order w.now c).2.credit := by
  rw [credit]
  obtain ⟨-, hself | ⟨hnone, hanswered⟩⟩ := run_of_callOf hc ch
  · rw [hself]
    rfl
  · rw [hnone, Call.credit_of_reply?_isSome hanswered]
    rfl

theorem credit_run_of_none (hc : w.callOf τ = none) (ch : Choice) : (w.run ch τ).credit τ = 0 := by
  apply credit_eq_zero
  intro c' hc'
  have hc' : (w.step ch (.step τ)).callOf τ = some c' := hc'
  obtain hold | ⟨r, rfl⟩ | ⟨c, hold, -⟩ := callOf_step_cases hc'
  · cases hc.symm.trans hold
  · rfl
  · cases hc.symm.trans hold

theorem regressions_run (w : World) (ch : Choice) (τ : Task) :
    (w.run ch τ).bridge.table.regressions = w.bridge.table.regressions := by
  have hmove : Move w ch (w.run ch τ) (.step τ) := move_run τ
  cases hmove with
  | flies bridge calls => rw [bridge, Bridge.table_stepFlight]
  | goes was bridge self others => rw [bridge, Bridge.regressions_stepCall]
  | begins bridge self others => rw [bridge]
  | idles bridge calls => rw [bridge]

theorem metrics_run_flight (w : World) (ch : Choice) (n : Nat) :
    (w.run ch (.flight n)).bridge.metrics =
      w.bridge.metrics + w.counts (.event ch (.step (.flight n))) := by
  have hcounts : w.counts (.event ch (.step (.flight n))) =
      Bridge.sample (w.bridge.finds w.now n) := by
    rw [counts, finds]
    cases w.bridge.finds w.now n <;> rfl
  rw [hcounts]
  exact w.bridge.metrics_stepFlight ch.draw w.now n

theorem metrics_run_call (hc : w.callOf τ = some c) (ch : Choice) :
    (w.run ch τ).bridge.metrics + w.credit τ =
      w.bridge.metrics + w.counts (.event ch (.step τ)) + (w.run ch τ).credit τ := by
  have hfinds : w.finds (.event ch (.step τ)) = [] := by
    cases τ with
    | flight n => cases hc
    | _ => rfl
  have hlaw := w.bridge.metrics_stepCall ch.order w.now c
  have hbefore : w.credit τ = c.credit := by rw [credit, hc]; rfl
  rw [(run_of_callOf hc ch).1, credit_run hc, hbefore, counts, hfinds]
  simp only [replies, resolves, hc, Option.bind_some]
  cases hreply : c.reply? with
  | some r =>
      -- a call that has its answer already gets no other one
      cases c with
      | answered r' => simp [Bridge.stepCall, Bridge.handed]
      | _ => cases hreply
  | none =>
      rw [Call.worth_eq c, Call.worth_eq (w.bridge.stepCall ch.order w.now c).2, hreply] at hlaw
      simp only [Option.toList_none, Metrics.counting_nil, zero_add] at hlaw
      rw [hlaw, Option.isSome_none]
      have happend := Metrics.counting_append
        (w.bridge.stepCall ch.order w.now c).2.reply?.toList [] []
        (w.bridge.handed w.now c).toList [] []
      simp only [List.append_nil, List.nil_append] at happend
      simp only [Bool.false_eq_true, if_false, happend]
      abel

/-- What a step of a task counts, it shows or keeps to its credit. -/
theorem metrics_run (w : World) (ch : Choice) (τ : Task) :
    (w.run ch τ).bridge.metrics + (w.bridge.regressed + w.credit τ) =
      w.bridge.metrics + w.counts (.event ch (.step τ)) +
        ((w.run ch τ).bridge.regressed + (w.run ch τ).credit τ) := by
  have hregressed : (w.run ch τ).bridge.regressed = w.bridge.regressed := by
    rw [Bridge.regressed, Bridge.regressed, regressions_run]
  have hlaw : (w.run ch τ).bridge.metrics + w.credit τ =
      w.bridge.metrics + w.counts (.event ch (.step τ)) + (w.run ch τ).credit τ := by
    cases hc : w.callOf τ with
    | some c => exact metrics_run_call hc ch
    | none =>
        have hidle : w.credit τ = 0 := credit_eq_zero fun c hc' ↦ by cases hc.symm.trans hc'
        rw [hidle, credit_run_of_none hc ch]
        cases τ with
        | flight n => exact congrArg (· + 0) (metrics_run_flight w ch n)
        | _ =>
          rw [bridge_run_of_none hc (fun n hn ↦ by cases hn) ch]
          simp [counts, replies, resolves, finds, hc]
  rw [hregressed, add_left_comm, hlaw]
  abel

/-! ## Runs -/

theorem counts_of_task?_none (h : u.task? = none) : w.counts u = 0 := by
  cases u with
  | event ch e =>
      cases e with
      | step τ => cases h
      | _ => rfl
  | _ => rfl

/-- What is no step of a task counts the commits that rewind, as the table does. -/
theorem metrics_use_of_task?_none (h : u.task? = none) :
    (w.use u).bridge.metrics + w.bridge.regressed =
      w.bridge.metrics + (w.use u).bridge.regressed := by
  cases u with
  | event ch e =>
      cases e with
      | operate op => exact w.bridge.metrics_operate op
      | step τ => cases h
      | cancel n =>
          simp only [use, step, cancel]
          split
          · rfl
          · obtain ⟨persistTurn, hb⟩ := w.bridge.cancelCall_eq ‹_›
            rw [hb]
            rfl
      | _ => rfl
  | register order hd =>
      simp only [use, Bridge.regressed_register]
      rfl
  | _ => rfl

theorem credit_use (hw : w.Numbered) (hu : w.LetsFinish u) (hτ : u.task? ≠ some τ) :
    (w.use u).credit τ = w.credit τ := by
  cases u with
  | event ch e => exact credit_step hw hu fun he ↦ hτ (he ▸ rfl)
  | _ => exact credit_congr (by cases τ <;> rfl)

/-- What a use counts, it shows, or it is in the stock. -/
theorem metrics_use (hw : w.Numbered) (hu : w.LetsFinish u) (hS : ∀ τ, u.task? = some τ → τ ∈ S) :
    (w.use u).bridge.metrics + w.stock S =
      w.bridge.metrics + w.counts u + (w.use u).stock S := by
  cases hτ : u.task? with
  | none =>
      have hcredits : ∑ τ ∈ S, (w.use u).credit τ = ∑ τ ∈ S, w.credit τ :=
        Finset.sum_congr rfl fun τ _ ↦ credit_use hw hu (by simp [hτ])
      rw [stock, stock, hcredits, counts_of_task?_none hτ, add_zero, ← add_assoc, ← add_assoc,
        metrics_use_of_task?_none hτ]
  | some τ =>
      obtain ⟨ch, rfl⟩ := Use.eq_of_task? hτ
      -- only the call that goes on changes its credit
      have hothers : ∑ τ' ∈ S.erase τ, (w.run ch τ).credit τ' = ∑ τ' ∈ S.erase τ, w.credit τ' :=
        Finset.sum_congr rfl fun τ' hτ' ↦
          credit_congr (callOf_run_of_ne w ch (Finset.ne_of_mem_erase hτ'))
      have hstock : ∀ w : World, w.stock S =
          w.bridge.regressed + w.credit τ + ∑ τ' ∈ S.erase τ, w.credit τ' := fun w ↦ by
        rw [stock, ← Finset.add_sum_erase S _ (hS τ rfl), add_assoc]
      rw [hstock, hstock]
      refine (add_assoc ..).symm.trans (Eq.trans ?_ (add_assoc ..))
      exact congrArg₂ (· + ·) (metrics_run w ch τ) hothers.symm

/-- What a run shows of what is counted. -/
def countsOf (w : World) (us : List Use) : Metrics :=
  .counting (w.seen replies us) (w.seen resolves us) (w.seen finds us)

theorem countsOf_cons : w.countsOf (u :: us) = w.counts u + (w.use u).countsOf us :=
  Metrics.counting_append ..

theorem metrics_uses (hw : w.Numbered) (hus : w.Throughout us LetsFinish)
    (hS : ∀ u ∈ us, ∀ τ, u.task? = some τ → τ ∈ S) :
    (w.uses us).bridge.metrics + w.stock S =
      w.bridge.metrics + w.countsOf us + (w.uses us).stock S := by
  induction us generalizing w with
  | nil => rfl
  | cons u us ih =>
      obtain ⟨hu, hus⟩ := throughout_cons.mp hus
      rw [uses_cons, countsOf_cons]
      exact Metrics.add_of_add (metrics_use hw hu (hS u (List.mem_cons_self ..)))
        (ih (numbered_use hw u) hus fun u' hu' ↦ hS u' (List.mem_cons_of_mem _ hu'))

/-! ## Resolutions -/

end World

namespace Bridge

variable {b : Bridge} {draw : Option Nat} {now n : Nat}

/-- A resolution that finds its partition obtains a handle. -/
theorem obtains_of_finds (h : b.finds now n = true) : (b.obtains now n).isSome = true := by
  rw [finds] at h
  cases hf : b.aloft[n]? with
  | none =>
      rw [hf] at h
      cases h
  | some f =>
      rw [hf, Option.bind_some, judged?] at h
      rw [obtains, hf, Option.bind_some]
      cases hphase : f.phase with
      | boarding =>
          rw [hphase] at h
          dsimp only at h ⊢
          split at h
          · rename_i hmisses
            rw [Option.isNone_iff_eq_none.mp hmisses.1, Option.none_or, if_pos hmisses.2]
            exact h
          · cases h
      | locating answerAt giveUpAt =>
          rw [hphase] at h
          dsimp only at h ⊢
          split at h
          · rename_i hdue
            rw [if_pos hdue]
            exact h
          · split at h <;> cases h
      | pausing upTo =>
          rw [hphase] at h
          dsimp only at h ⊢
          split at h
          · rename_i hdue
            rw [if_pos hdue]
            exact h
          · cases h

/-- A resolution that finds its partition ends with it. -/
theorem outcome?_of_finds (hb : b.Aboard) (h : b.finds now n = true) (draw : Option Nat) :
    b.flights.outcome? n = none ∧
      ∃ o, (b.stepFlight draw now n).flights.outcome? n = some o := by
  have hobtains := obtains_of_finds h
  cases hf : b.aloft[n]? with
  | none =>
      rw [obtains, hf] at hobtains
      cases hobtains
  | some f =>
      have hruns := hb.works_eq hf
      refine ⟨hb.sound.running hruns, ?_⟩
      have hflies := flies_stepFlight draw now hf
      generalize b.obtains now n = obtained at hflies hobtains
      cases hflies with
      | waits departed same => cases hobtains
      | goesOn departed target generation cache flights aloft => cases hobtains
      | lands lost cache flights aloft => cases hobtains
      | meets boarding cached cache flights aloft =>
          exact ⟨_, flights ▸ Flights.outcome?_finish_self hruns⟩
      | finds found cache flights aloft =>
          exact ⟨_, flights ▸ Flights.outcome?_finish_self hruns⟩

end Bridge

namespace World

variable {w : World} {us : List Use} {n : Nat} {o : Option Resolution}

theorem outcome?_use (hw : w.Aboard) (u : Use) (ho : w.bridge.flights.outcome? n = some o) :
    (w.use u).bridge.flights.outcome? n = some o := by
  cases u with
  | event ch e => exact outcome?_step hw ch e ho
  | _ => exact ho

theorem finds_cases (w : World) (u : Use) : w.finds u = [] ∨ ∃ ch n,
    u = .event ch (.step (.flight n)) ∧ w.bridge.finds w.now n = true ∧ w.finds u = [n] := by
  cases u with
  | event ch e =>
      cases e with
      | step τ =>
          cases τ with
          | flight n =>
              simp only [finds]
              split
              · rename_i hfinds
                exact .inr ⟨ch, n, rfl, hfinds, rfl⟩
              · exact .inl rfl
          | _ => exact .inl rfl
      | _ => exact .inl rfl
  | _ => exact .inl rfl

/-- A resolution finds its partition once, and has not ended before. -/
theorem nodup_finds (hw : w.Aboard) (us : List Use) : (w.seen finds us).Nodup ∧
    ∀ n ∈ w.seen finds us, w.bridge.flights.outcome? n = none := by
  induction us generalizing w with
  | nil => exact ⟨List.nodup_nil, fun n hn ↦ by cases hn⟩
  | cons u us ih =>
      obtain ⟨hnodup, hrunning⟩ := ih (aboard_use hw u)
      have hlater : ∀ n ∈ (w.use u).seen finds us, w.bridge.flights.outcome? n = none := by
        intro n hn
        cases ho : w.bridge.flights.outcome? n with
        | none => rfl
        | some o => cases (outcome?_use hw u ho).symm.trans (hrunning n hn)
      rw [seen]
      obtain hnone | ⟨ch, n, rfl, hfinds, hn⟩ := finds_cases w u
      · rw [hnone, List.nil_append]
        exact ⟨hnodup, hlater⟩
      · obtain ⟨hbefore, o, hafter⟩ := Bridge.outcome?_of_finds hw.bridge hfinds ch.draw
        rw [hn, List.singleton_append, List.nodup_cons, List.forall_mem_cons]
        refine ⟨⟨fun hmem ↦ ?_, hnodup⟩, hbefore, hlater⟩
        cases hafter.symm.trans (hrunning n hmem)

/-! ## Done -/

/-- The counters agree with the results.  Whatever is done to a bridge from its start on, and once
every call and pass that needed partitions has run to its end: the regressions are those of the
table, the removals are the keys that sweep passes have answered with, the failures are those in the
reports of the persist passes, the timeouts are the resolves that ended with one, whoever made them,
and the latencies are the resolutions whose lookup has found the partition. -/
theorem metrics_agree_with_results (now : Nat) (settings : Bridge.Settings) (store : Store)
    (manualClock : Option Nat) (us : List Use)
    (hfinish : (new now (.new settings store manualClock)).Throughout us LetsFinish)
    (hdone : ∀ τ c, ((new now (.new settings store manualClock)).uses us).callOf τ = some c →
      c.purpose? = none) :
    let w := new now (.new settings store manualClock)
    (w.uses us).bridge.metrics = {
      offsetRegressions := (w.uses us).bridge.table.regressions
      sweepRemovals := ((w.seen replies us).flatMap Reply.swept).length
      persistFailures := (((w.seen replies us).filterMap Reply.report?).map (·.failed)).sum
      resolutionTimeouts := (w.seen resolves us).countP fun (_, r) ↦ Bridge.isTimeout r
      resolutionLatencies := (w.seen finds us).length } ∧
    (w.seen finds us).Nodup := by
  intro w
  have hw : w.Unasked := unasked_new settings store manualClock now
  refine ⟨?_, (nodup_finds hw.aboard us).1⟩
  have hnumbered : w.Numbered := numbered_new _ _
  let S : Finset Task := (us.filterMap Use.task?).toFinset
  have hlaw := metrics_uses (S := S) hnumbered hfinish fun u hu τ hτ ↦ by
    simpa [S] using ⟨u, hu, hτ⟩
  have hstart : w.stock S = 0 := by
    rw [stock, Finset.sum_eq_zero fun τ _ ↦ credit_eq_zero fun c hc ↦ by
      cases (hw.calls τ).symm.trans hc]
    rfl
  have hend : (w.uses us).stock S = (w.uses us).bridge.regressed := by
    rw [stock, Finset.sum_eq_zero fun τ _ ↦ credit_eq_zero (hdone τ), add_zero]
  have hzero : w.bridge.metrics = 0 := rfl
  rw [hstart, hend, hzero, add_zero, zero_add, add_comm] at hlaw
  rw [hlaw]
  ext <;> simp [Metrics.add_eq, Bridge.regressed, countsOf, Metrics.counting]

/-- A group commits and rewinds on a partition whose records are deleted then. -/
def rewound : List Use :=
  [.event .plain (.operate (.createPartition ⟨"t", 0⟩)),
    .event .plain (.operate (.commit ⟨"g", "t"⟩ 0 5)),
    .event .plain (.operate (.commit ⟨"g", "t"⟩ 0 3)),
    .event .plain (.operate (.setRange ⟨"t", 0⟩ ⟨2, 0⟩ ⟨3, 0⟩))]

/-- A sweep pass, whose resolution finds the partition. -/
def swept : List Use :=
  [.event .plain (.call .sweep), .event .plain (.step (.call 0)),
    .event .plain (.step (.call 0)), .fly .plain 0, .event .plain (.step (.call 0))]

/-- A persist pass that waits in vain for another partition. -/
def persistedInVain : List Use :=
  [.event .plain (.operate (.commit ⟨"g", "u"⟩ 0 1)),
    .event .plain (.operate (.setLookupDelay 100)), .event .plain (.call .persist),
    .event .plain (.step (.call 1)), .event .plain (.step (.call 1)),
    .fly .plain 1, .event .plain (.elapse 5), .event .plain (.step (.call 1))]

/-- Of everything that is counted there is one: a rewind, an entry that is swept, an offset that is
not persisted, a resolve that takes too long, and a partition that is found. -/
theorem metrics_of_one_each :
    ((new 0 (.new ⟨[], ⟨1, 1, 10, 3⟩, 5⟩ (.new "node" ∅) none)).uses
      (rewound ++ swept ++ persistedInVain)).bridge.metrics = ⟨1, 1, 1, 1, 1⟩ := by
  have hfinish : (new 0 (.new ⟨[], ⟨1, 1, 10, 3⟩, 5⟩ (.new "node" ∅) none)).Throughout
      (rewound ++ swept ++ persistedInVain) LetsFinish := by
    simp [rewound, swept, persistedInVain, throughout_cons, throughout_nil, LetsFinish]
  have hnumbered : ((new 0 (.new ⟨[], ⟨1, 1, 10, 3⟩, 5⟩ (.new "node" ∅) none)).uses
      (rewound ++ swept ++ persistedInVain)).Numbered := numbered_uses (numbered_new _ _) _
  have hdone : ∀ τ c, ((new 0 (.new ⟨[], ⟨1, 1, 10, 3⟩, 5⟩ (.new "node" ∅) none)).uses
      (rewound ++ swept ++ persistedInVain)).callOf τ = some c → c.purpose? = none := by
    intro τ c hc
    cases τ with
    | call n =>
        match n with
        | 0 | 1 =>
            cases hc
            rfl
        | n + 2 => cases (hnumbered (n + 2) (Nat.le_add_left 2 n)).symm.trans hc
    | _ => cases hc
  exact (metrics_agree_with_results 0 _ _ none _ hfinish hdone).1

end World

end GroupOffsets
