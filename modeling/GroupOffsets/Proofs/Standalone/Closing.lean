import GroupOffsets.Proofs.Standalone.Idle
import GroupOffsets.Standalone

/-!
# How an idle service ends

Once an idle service is told to stop, each of its loops has a bounded number of steps left: the
sweep loop ends when it hears the signal, and the persist loop after one more pass, which comes to
each offset once and waits for nothing.
-/

namespace GroupOffsets

open World (Choice Event Task)

/-! ## Settling -/

namespace World

variable {w : World} {P : World → Prop} {rank : World → Nat} {fuel : Nat}

theorem settle_keeps (hstep : ∀ v τ, P v → P (v.run .plain τ)) (h : P w) : P (w.settle fuel) := by
  induction fuel generalizing w with
  | zero => exact h
  | succ fuel ih =>
      rw [settle]
      split
      · exact ih (hstep w _ h)
      · exact h

/-- A world comes to rest if each step of a task that need not wait leaves less to do. -/
theorem settle_rests
    (hstep : ∀ v τ, P v → v.isBlocked τ = false →
      P (v.run .plain τ) ∧ rank (v.run .plain τ) < rank v)
    (h : P w) (hfuel : rank w ≤ fuel) :
    P (w.settle fuel) ∧ ∀ τ ∈ (w.settle fuel).tasks, (w.settle fuel).isBlocked τ = true := by
  induction fuel generalizing w with
  | zero =>
      refine ⟨h, fun τ _ ↦ ?_⟩
      cases hblocked : w.isBlocked τ with
      | true => exact hblocked
      | false =>
          have hless := (hstep w τ h hblocked).2
          omega
  | succ fuel ih =>
      rw [settle]
      split
      · rename_i τ hτ
        have hgoes : w.isBlocked τ = false := by simpa using List.find?_some hτ
        obtain ⟨hkept, hless⟩ := hstep w τ h hgoes
        exact ih hkept (by omega)
      · rename_i hnone
        exact ⟨h, fun τ hτ ↦ by simpa using List.find?_eq_none.mp hnone τ hτ⟩

end World

namespace Persist

theorem start_left {order : Itinerary} {t : OffsetTable} {isSystem : String → Bool} {s : Persist}
    (h : start order t isSystem = .asks s) : s.left t < t.count :=
  weight_arrange_keys order.entries t ▸ advance_left h

end Persist

/-! ## Loops -/

/-- How many steps a loop may still take before it has to wait for a tick or has ended, if there is
one more pass. -/
def Loop.chores (t : OffsetTable) : Loop → Nat
  | .begun => t.count + 4
  | .idle _ => t.count + 3
  | .passing _ (.asking (.persist _ s)) => s.left t + 1
  | .passing _ _ => t.count + 2
  | .ended => 0

namespace Service

variable {b b' : Bridge} {s s' : Service} {now turn n : Nat} {tickAt : Option Nat} {c : Call}
variable {q : Progress Persist PersistReport}

/-- Both loops are told to stop. -/
structure Told (s : Service) : Prop where
  sweeper : s.signal.isReady sweepEar = true
  persister : s.signal.isReady persistEar = true

/-- The persist loop has not begun a pass, and no tick is due. -/
structure Waits (b : Bridge) (now : Nat) (s : Service) : Prop where
  loop : s.persister = .begun ∨ ∃ tickAt, s.persister = .idle tickAt ∧
    Loop.isDue now tickAt = false
  free : b.persistTurn.holder = none

/-- The persist loop of a service that is told to stop, while no tick is due. -/
inductive Closing (b : Bridge) (now : Nat) (s : Service) : Prop
  | waits (waits : s.Waits b now)
  | starts {tickAt : Option Nat} (loop : s.persister = .passing tickAt (.begun .persist))
      (free : b.persistTurn.holder = none) (heard : s.heard = true)
  | asks {tickAt : Option Nat} {turn : Nat} {p : Persist}
      (loop : s.persister = .passing tickAt (.asking (.persist turn p))) (heard : s.heard = true)
  | ended (loop : s.persister = .ended) (final : s.final.isSome = true)

theorem waits_start (sweepEvery persistEvery : Nat) (h : b.persistTurn.holder = none) :
    (start sweepEvery persistEvery).Waits b now := ⟨.inl rfl, h⟩

theorem Waits.congr (h : s.Waits b now) (hs : s.SamePersister s') : s'.Waits b now :=
  ⟨hs.persister ▸ h.loop, h.free⟩

theorem Closing.congr (h : s.Closing b now) (hs : s.SamePersister s') : s'.Closing b now := by
  cases h with
  | waits waits => exact .waits (waits.congr hs)
  | starts loop free heard =>
      exact .starts (hs.persister.trans loop) free (hs.heard.trans heard)
  | asks loop heard => exact .asks (hs.persister.trans loop) (hs.heard.trans heard)
  | ended loop final => exact .ended (hs.persister.trans loop) (hs.final ▸ final)

section

variable (tickFirst : Bool) (order : Itinerary)

theorem isReady_stepSweeper (h : s.signal.isReady n = true) :
    (s.stepSweeper b tickFirst order now).2.signal.isReady n = true := by
  rw [Service.stepSweeper]
  split
  · exact h
  · split
    · exact h
    · exact h
    · exact Broadcast.isReady_recv h
  · exact h
  · exact h

theorem isReady_stepPersister (h : s.signal.isReady n = true) :
    (s.stepPersister b tickFirst order now).2.signal.isReady n = true := by
  rw [Service.stepPersister]
  split
  · exact h
  · split
    · exact h
    · exact h
    · exact Broadcast.isReady_recv h
  · dsimp only
    split
    · split <;> exact h
    · exact h
  · exact h

/-- As long as nobody tells it to stop, the persist loop waits. -/
theorem Waits.stepPersister (h : s.Waits b now) (huntold : s.Untold) :
    (s.stepPersister b tickFirst order now).2.Waits (s.stepPersister b tickFirst order now).1
      now := by
  rw [Service.stepPersister]
  obtain ⟨hbegun | ⟨tickAt, hidle, hearly⟩, hfree⟩ := h
  · rw [hbegun]
    refine ⟨.inr ⟨_, rfl, ?_⟩, hfree⟩
    split
    · rfl
    · rename_i hevery
      exact decide_eq_false (by omega)
  · have hwake : Loop.wake tickFirst false false = none := rfl
    rw [hidle]
    simp only [hearly, huntold persistEar, hwake]
    exact ⟨.inr ⟨tickAt, hidle, hearly⟩, hfree⟩

/-- The sweep loop begins to wait, or hears the signal and ends. -/
theorem Idle.stepSweeper_chores (h : s.Idle b) (htold : s.Told) (hnow : now < s.sweepEvery)
    (hgoes : s.sweeper ≠ .ended) (b' : Bridge) (t : OffsetTable) :
    (s.stepSweeper b' tickFirst order now).2.sweeper.chores t < s.sweeper.chores t := by
  have hdormant := h.sweeper
  rw [Service.stepSweeper]
  cases hl : s.sweeper with
  | begun =>
      dsimp only
      split <;> simp [Loop.chores]
  | idle tickAt =>
      rw [hl] at hdormant
      cases hdormant with
      | @idle tickAt late =>
          have hdue : Loop.isDue now (some tickAt) = false :=
            decide_eq_false (Nat.not_le.mpr (Nat.lt_of_lt_of_le hnow late))
          have hwake : Loop.wake tickFirst false true = some .signal := rfl
          simp only [hdue, htold.sweeper, hwake]
          simp [Loop.chores]
  | passing tickAt c =>
      rw [hl] at hdormant
      cases hdormant
  | ended => exact absurd hl hgoes

/-- A last pass that goes on has less to do, and when it is done its loop ends. -/
theorem closing_of_passing (hl : s.persister = .passing tickAt c) (hheard : s.heard = true)
    (hnext : (b'.stepCall order now c).2 = .ofPersist turn q) (hpos : 0 < n)
    (hleft : ∀ p, q = .asks p → p.left b.table + 1 < n) :
    (s.stepPersister b' tickFirst order now).2.Closing (s.stepPersister b' tickFirst order now).1
        now ∧
      (s.stepPersister b' tickFirst order now).2.persister.chores b.table < n := by
  have hheard' : s.signal.isShutdown persistEar = true := hheard
  rw [Service.stepPersister, hl]
  dsimp only
  rw [hnext]
  cases q with
  | asks p => exact ⟨.asks rfl hheard, hleft p rfl⟩
  | done report =>
      simp only [Call.ofPersist, Call.reply?, hheard', if_true]
      exact ⟨.ended rfl rfl, hpos⟩

/-- The persist loop begins to wait, or hears the signal, or its last pass goes on. -/
theorem Closing.stepPersister (h : s.Closing b' now) (htold : s.Told) (hb : b.Mirrors)
    (hb' : b.Unused b') (hidle : s.Idle b) (hgoes : s.persister ≠ .ended) :
    (s.stepPersister b' tickFirst order now).2.Closing (s.stepPersister b' tickFirst order now).1
        now ∧
      (s.stepPersister b' tickFirst order now).2.persister.chores b.table <
        s.persister.chores b.table := by
  cases h with
  | waits waits =>
      obtain ⟨hbegun | ⟨tickAt, hwaits, hearly⟩, hfree⟩ := waits
      · rw [Service.stepPersister, hbegun]
        refine ⟨.waits ⟨.inr ⟨_, rfl, ?_⟩, hfree⟩, Nat.lt_succ_self _⟩
        split
        · rfl
        · exact decide_eq_false (by omega)
      · have hwake : Loop.wake tickFirst false true = some .signal := rfl
        rw [Service.stepPersister, hwaits]
        simp only [hearly, htold.persister, hwake]
        exact ⟨.starts rfl hfree (Broadcast.isShutdown_recv_self htold.persister),
          Nat.lt_succ_self _⟩
  | starts loop free heard =>
      obtain ⟨turn, hnext⟩ := b'.stepCall_begun_persist order now free
      rw [loop]
      refine closing_of_passing tickFirst order loop heard hnext (Nat.succ_pos _) fun p hp ↦ ?_
      have hleft := Persist.start_left hp
      rw [hb'.table] at hleft
      exact Nat.succ_lt_succ (Nat.lt_succ_of_lt hleft)
  | @asks tickAt turn p loop heard =>
      have hprospers := hidle.pass (.asking (.persist turn p)) (by rw [loop]; rfl)
      cases hprospers with
      | awaits waits => cases waits
      | asks reads =>
          obtain ⟨n, -, hh⟩ := hb'.exists_handed hb reads now turn
          obtain ⟨moved, hnext⟩ := Bridge.stepCall_persist_of_handed order hh
          rw [loop]
          refine closing_of_passing tickFirst order loop heard hnext (Nat.succ_pos _) ?_
          intro p' hp'
          rw [hb'.table] at hp'
          exact Nat.succ_lt_succ (Persist.answer_left hp')
  | ended loop final => exact absurd loop hgoes

end

end Service

/-! ## Worlds -/

namespace World

variable {w : World} {b : Bridge} {every : Nat} {s : Service}

/-- How many steps the loops of a world may still take. -/
def chores (w : World) : Nat :=
  (w.service.map fun s ↦
    s.sweeper.chores w.bridge.table + s.persister.chores w.bridge.table).getD 0

/-- An idle service that nobody has told to stop yet. -/
structure Waiting (b : Bridge) (every : Nat) (w : World) : Prop where
  idle : w.Idle b every
  early : w.now < every
  service : w.InService fun s ↦ s.signal = (Service.start 0 0).signal ∧ s.Waits w.bridge w.now

/-- An idle service that is told to stop. -/
structure Closing (b : Bridge) (every : Nat) (w : World) : Prop where
  idle : w.Idle b every
  early : w.now < every
  service : w.InService fun s ↦ s.Told ∧ s.Closing w.bridge w.now

theorem now_run (w : World) (ch : Choice) (τ : Task) : (w.run ch τ).now = w.now :=
  now_step w ch (.step τ)

theorem waiting_run (h : w.Waiting b every) (hb : b.Mirrors) (ch : Choice) (τ : Task) :
    (w.run ch τ).Waiting b every := by
  have hidle : (w.step ch (.step τ)).Idle b every := idle_step h.idle hb rfl h.early ch
  refine ⟨hidle, (now_run w ch τ).symm ▸ h.early, ?_⟩
  obtain ⟨s, hs, ⟨hsignal, hwaits⟩, hidle', rfl⟩ := h.service.exists_both h.idle.service
  have huntold : s.Untold := fun n ↦ hsignal ▸ Service.untold_start 0 0 n
  cases τ with
  | flight n =>
      have hturn : (w.bridge.stepFlight ch.draw w.now n).persistTurn = w.bridge.persistTurn :=
        Bridge.persistTurn_stepFlight ..
      exact ⟨s, hs, hsignal, hwaits.loop, hturn.symm ▸ hwaits.free⟩
  | call n =>
      rw [run_call_of_none (by simp [h.idle.calls])]
      exact ⟨s, hs, hsignal, hwaits⟩
  | sweeper =>
      have hsame := (hidle'.stepSweeper ch.tickFirst ch.order h.early w.bridge).1
      have hsignal' := huntold.signal_stepSweeper w.bridge ch.tickFirst ch.order w.now
      simp only [run, hs]
      refine ⟨_, rfl, hsignal'.trans hsignal, ?_⟩
      rw [hsame]
      exact hwaits.congr (s.samePersister_stepSweeper w.bridge ch.tickFirst ch.order w.now)
  | persister =>
      have hsignal' := huntold.signal_stepPersister w.bridge ch.tickFirst ch.order w.now
      simp only [run, hs]
      exact ⟨_, rfl, hsignal'.trans hsignal, hwaits.stepPersister ch.tickFirst ch.order huntold⟩

/-- A service that waits is told to stop. -/
theorem Waiting.stop (h : w.Waiting b every) : (w.step .plain .stop).Closing b every := by
  refine ⟨h.idle.stop _, h.early, ?_⟩
  obtain ⟨s, hs, hsignal, hwaits⟩ := h.service
  refine ⟨s.stop, congrArg (Option.map Service.stop) hs, ?_,
    .waits (hwaits.congr Service.samePersister_stop)⟩
  constructor <;> rw [Service.stop, hsignal] <;> rfl

/-- The patience of the program is enough. -/
theorem Waiting.chores_stop (h : w.Waiting b every) :
    (w.step .plain .stop).chores ≤ Standalone.patience (w.step .plain .stop) := by
  obtain ⟨s, hs, ⟨-, hwaits⟩, hidle, rfl⟩ := h.service.exists_both h.idle.service
  have hsweeper : s.sweeper.chores w.bridge.table ≤ w.bridge.table.count + 4 := by
    have hdormant := hidle.sweeper
    cases hl : s.sweeper with
    | passing tickAt c =>
        rw [hl] at hdormant
        cases hdormant
    | _ => simp [Loop.chores]
  have hpersister : s.persister.chores w.bridge.table ≤ w.bridge.table.count + 4 := by
    rcases hwaits.loop with hl | ⟨tickAt, hl, -⟩ <;> simp [hl, Loop.chores]
  have hchores : (w.step .plain .stop).chores =
      s.sweeper.chores w.bridge.table + s.persister.chores w.bridge.table := by
    simp only [chores, step, hs, Option.map_some, Option.getD_some]
    rfl
  rw [hchores, Standalone.patience, Nat.two_mul]
  exact Nat.add_le_add hsweeper hpersister

/-- Every step of a loop that need not wait leaves less to do. -/
theorem closing_run (h : w.Closing b every) (hb : b.Mirrors) (ch : Choice) (τ : Task)
    (hgoes : w.isBlocked τ = false) :
    (w.run ch τ).Closing b every ∧ (w.run ch τ).chores < w.chores := by
  have hidle : (w.step ch (.step τ)).Idle b every := idle_step h.idle hb rfl h.early ch
  have hearly : (w.run ch τ).now < every := (now_run w ch τ).symm ▸ h.early
  obtain ⟨s, hs, ⟨htold, hclosing⟩, hidle', rfl⟩ := h.service.exists_both h.idle.service
  cases τ with
  | flight n => simp [isBlocked, h.idle.bridge.aloft] at hgoes
  | call n => simp [isBlocked, h.idle.calls] at hgoes
  | sweeper =>
      have hnot : s.sweeper ≠ .ended := by
        intro hl
        simp [isBlocked, hs, hl, Loop.isBlocked] at hgoes
      have hsame := (hidle'.stepSweeper ch.tickFirst ch.order h.early w.bridge).1
      have hpersister := s.samePersister_stepSweeper w.bridge ch.tickFirst ch.order w.now
      have hless := hidle'.stepSweeper_chores ch.tickFirst ch.order htold h.early hnot w.bridge
        w.bridge.table
      refine ⟨⟨hidle, hearly, ?_⟩, ?_⟩
      · simp only [run, hs]
        refine ⟨_, rfl, ⟨?_, ?_⟩, ?_⟩
        · exact Service.isReady_stepSweeper ch.tickFirst ch.order htold.sweeper
        · exact Service.isReady_stepSweeper ch.tickFirst ch.order htold.persister
        · rw [hsame]
          exact hclosing.congr hpersister
      · simp only [chores, run, hs, Option.map_some, Option.getD_some, hsame, hpersister.persister]
        exact Nat.add_lt_add_right hless _
  | persister =>
      have hnot : s.persister ≠ .ended := by
        intro hl
        simp [isBlocked, hs, hl, Loop.isBlocked] at hgoes
      obtain ⟨hclosing', hless⟩ := hclosing.stepPersister ch.tickFirst ch.order htold hb
        h.idle.bridge hidle' hnot
      have hsweeper := (s.goes_stepPersister w.bridge ch.tickFirst ch.order w.now).2
      refine ⟨⟨hidle, hearly, ?_⟩, ?_⟩
      · simp only [run, hs]
        refine ⟨_, rfl, ⟨?_, ?_⟩, hclosing'⟩
        · exact Service.isReady_stepPersister ch.tickFirst ch.order htold.sweeper
        · exact Service.isReady_stepPersister ch.tickFirst ch.order htold.persister
      · have htable := hidle.bridge.table
        simp only [step, run, hs] at htable
        simp only [chores, run, hs, Option.map_some, Option.getD_some, htable, hsweeper,
          h.idle.bridge.table]
        exact Nat.add_lt_add_left hless _

/-- When nothing is left to do, both loops have ended. -/
theorem Closing.final_eq (h : w.Closing b every)
    (hrests : ∀ τ ∈ w.tasks, w.isBlocked τ = true) :
    w.service.bind (·.final) = some b.prospect := by
  obtain ⟨s, hs, ⟨htold, hclosing⟩, hidle', rfl⟩ := h.service.exists_both h.idle.service
  have hblocked : w.isBlocked .persister = true := hrests _ (by simp [tasks])
  have hready := htold.persister
  simp only [isBlocked, hs, Option.map_some, Option.getD_some] at hblocked
  cases hclosing with
  | waits waits =>
      obtain ⟨hbegun | ⟨tickAt, hwaits, -⟩, -⟩ := waits
      · rw [hbegun] at hblocked
        cases hblocked
      · rw [hwaits] at hblocked
        simp [Loop.isBlocked, hready] at hblocked
  | starts loop free heard =>
      rw [loop] at hblocked
      cases hblocked
  | asks loop heard =>
      rw [loop] at hblocked
      cases hblocked
  | ended loop final =>
      obtain ⟨report, hreport⟩ := Option.isSome_iff_exists.mp final
      rw [hs, Option.bind_some, hreport, hidle'.final report hreport]

end World

end GroupOffsets
