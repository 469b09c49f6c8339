import GroupOffsets.Proofs.Always
import GroupOffsets.Proofs.Broadcast
import GroupOffsets.Proofs.Persist.Progress

/-!
# Shutdown

The persist loop listens for the shutdown signal only between its passes.  After the one that it
begins when it has heard it, it ends; so a run of the service is cut in three: the loop has not
heard the signal, its last pass runs, it has ended.
-/

namespace GroupOffsets

open World (Choice Event Task)

/-! ## The loops -/

namespace Loop

variable {tickFirst due heard : Bool}

theorem wake_eq_tick (h : wake tickFirst due heard = some .tick) : due = true := by
  cases due with
  | true => rfl
  | false => cases heard <;> cases h

theorem wake_eq_signal (h : wake tickFirst due heard = some .signal) : heard = true := by
  cases heard with
  | true => rfl
  | false => cases tickFirst <;> cases due <;> cases h

end Loop

namespace Service

variable {s s' : Service} {every : Nat}

/-- Whether the persist loop has heard the signal. -/
def heard (s : Service) : Bool := s.signal.isShutdown persistEar

/-- The persist loop of two services is in the same state. -/
structure SamePersister (s s' : Service) : Prop where
  persister : s'.persister = s.persister
  heard : s'.heard = s.heard
  interval : s'.persistEvery = s.persistEvery
  final : s'.final = s.final

theorem samePersister_stop : s.SamePersister s.stop := ⟨rfl, Broadcast.isShutdown_send, rfl, rfl⟩

theorem samePersister_stepSweeper (b : Bridge) (tickFirst : Bool) (order : Itinerary) (now : Nat) :
    s.SamePersister (s.stepSweeper b tickFirst order now).2 := by
  rw [stepSweeper]
  split
  · exact ⟨rfl, rfl, rfl, rfl⟩
  · split
    · exact ⟨rfl, rfl, rfl, rfl⟩
    · exact ⟨rfl, rfl, rfl, rfl⟩
    · exact ⟨rfl, Broadcast.isShutdown_recv_of_ne (by decide), rfl, rfl⟩
  · exact ⟨rfl, rfl, rfl, rfl⟩
  · exact ⟨rfl, rfl, rfl, rfl⟩

/-- The persist loop has not heard the signal. -/
structure Unaware (every : Nat) (s : Service) : Prop where
  unheard : s.heard = false
  interval : s.persistEvery = every
  goesOn : s.persister ≠ .ended
  unticked : every = 0 → s.persister = .begun ∨ s.persister = .idle none

/-- The persist loop has heard the signal, and its last pass runs. -/
structure Leaving (s : Service) : Prop where
  heard : s.heard = true
  pass : ∃ tickAt c, s.persister = .passing tickAt c ∧ c.Persists

/-- The persist loop has ended. -/
structure Left (s : Service) : Prop where
  ended : s.persister = .ended
  final : ∃ report, s.final = some report

theorem unaware_start (sweepEvery persistEvery : Nat) :
    (start sweepEvery persistEvery).Unaware persistEvery :=
  ⟨rfl, rfl, by simp [start], fun _ ↦ .inl rfl⟩

theorem Unaware.congr (h : s.Unaware every) (hs : s.SamePersister s') : s'.Unaware every :=
  ⟨hs.heard.trans h.unheard, hs.interval.trans h.interval, hs.persister ▸ h.goesOn,
    fun he ↦ hs.persister ▸ h.unticked he⟩

theorem Leaving.congr (h : s.Leaving) (hs : s.SamePersister s') : s'.Leaving :=
  ⟨hs.heard.trans h.heard, hs.persister ▸ h.pass⟩

theorem Left.congr (h : s.Left) (hs : s.SamePersister s') : s'.Left :=
  ⟨hs.persister.trans h.ended, hs.final ▸ h.final⟩

section

variable (b : Bridge) (tickFirst : Bool) (order : Itinerary) (now : Nat)

/-- Nobody has sent the signal. -/
def Untold (s : Service) : Prop := ∀ n, s.signal.isReady n = false

theorem untold_start (sweepEvery persistEvery : Nat) : (start sweepEvery persistEvery).Untold := by
  rintro (_ | _ | n) <;> rfl

theorem Untold.signal_stepSweeper (h : s.Untold) :
    (s.stepSweeper b tickFirst order now).2.signal = s.signal := by
  rw [stepSweeper, h]
  split
  · rfl
  · split
    · rfl
    · rfl
    · rename_i hsignal
      cases Loop.wake_eq_signal hsignal
  · rfl
  · rfl

theorem Untold.signal_stepPersister (h : s.Untold) :
    (s.stepPersister b tickFirst order now).2.signal = s.signal := by
  rw [stepPersister, h]
  split
  · rfl
  · split
    · rfl
    · rfl
    · rename_i hsignal
      cases Loop.wake_eq_signal hsignal
  · dsimp only
    split
    · split <;> rfl
    · rfl
  · rfl

/-- A loop that has not heard the signal goes on like that, or hears it and begins a pass. -/
theorem Unaware.step (h : s.Unaware every) :
    (s.stepPersister b tickFirst order now).2.Unaware every ∨
      s.persister.pass? = none ∧ s.signal.isReady persistEar = true ∧
        (s.stepPersister b tickFirst order now).2.Leaving ∧
        (s.stepPersister b tickFirst order now).2.persister.pass? = some (.begun .persist) := by
  obtain ⟨hunheard, rfl, hgoesOn, hunticked⟩ := h
  have hunheard' : s.signal.isShutdown persistEar = false := hunheard
  rw [stepPersister]
  cases hl : s.persister with
  | begun =>
      refine .inl ⟨hunheard, rfl, by simp, fun he ↦ .inr ?_⟩
      rw [if_pos he]
  | idle tickAt =>
      dsimp only
      split
      · exact .inl ⟨hunheard, rfl, hgoesOn, hunticked⟩
      · rename_i htick
        refine .inl ⟨hunheard, rfl, by simp, fun he ↦ ?_⟩
        have hdue := Loop.wake_eq_tick htick
        rcases hunticked he with hbegun | hidle
        · cases hl.symm.trans hbegun
        · cases hl.symm.trans hidle
          cases hdue
      · rename_i hsignal
        have hready := Loop.wake_eq_signal hsignal
        exact .inr ⟨rfl, hready, ⟨Broadcast.isShutdown_recv_self hready,
          tickAt, _, rfl, .awaits .begun⟩, rfl⟩
  | passing tickAt c =>
      left
      have hticks : s.persistEvery ≠ 0 := by
        intro he
        rcases hunticked he with hbegun | hidle
        · cases hl.symm.trans hbegun
        · cases hl.symm.trans hidle
      dsimp only
      split
      · rw [hunheard', if_neg Bool.false_ne_true]
        exact ⟨hunheard, rfl, by simp, fun he ↦ absurd he hticks⟩
      · exact ⟨hunheard, rfl, by simp, fun he ↦ absurd he hticks⟩
  | ended => exact absurd hl hgoesOn

/-- The last pass goes on, or the loop ends with its report. -/
theorem Leaving.step (h : s.Leaving) :
    (s.stepPersister b tickFirst order now).2.Leaving ∨
      (s.stepPersister b tickFirst order now).2.Left ∧ ∃ c report, s.persister.pass? = some c ∧
        (b.stepCall order now c).2 = .answered (.report report) := by
  obtain ⟨hheard, tickAt, c, hl, hpersists⟩ := h
  have hheard' : s.signal.isShutdown persistEar = true := hheard
  have hpersists' := (b.persists_stepCall order now hpersists).1
  rw [stepPersister, hl]
  dsimp only
  split
  · rename_i reply hreply
    obtain ⟨report, hreport⟩ := hpersists'.exists_report hreply
    rw [hreport] at hreply
    cases hreply
    rw [hheard', if_pos rfl]
    exact .inr ⟨⟨rfl, report, rfl⟩, c, report, rfl, hreport⟩
  · exact .inl ⟨hheard, tickAt, _, rfl, hpersists'⟩

theorem Left.step (h : s.Left) : (s.stepPersister b tickFirst order now).2.Left := by
  rw [stepPersister, h.ended]
  exact h

end

end Service

namespace World

variable {w : World} {s : Service} {ch : Choice} {e : Event} {es es' : List (Choice × Event)}
variable {every : Nat}

/-! ## The service in a run -/

/-- A service is there, and has some property. -/
def InService (w : World) (P : Service → Prop) : Prop := ∃ s, w.service = some s ∧ P s

/-- What is known of a service is known of one and the same. -/
theorem InService.exists_both {P Q : Service → Prop} (h : w.InService P) (h' : w.InService Q) :
    ∃ s, w.service = some s ∧ P s ∧ Q s := by
  obtain ⟨s, hs, hP⟩ := h
  obtain ⟨s', hs', hQ⟩ := h'
  cases hs.symm.trans hs'
  exact ⟨s, hs, hP, hQ⟩

/-- Whether an event starts the service, again if need be. -/
def Event.isServe : Event → Bool
  | .serve _ _ => true
  | _ => false

/-- What an event makes of a service that runs. -/
def Event.onService (w : World) (ch : Choice) (s : Service) : Event → Service
  | .stop => s.stop
  | .step .sweeper => (s.stepSweeper w.bridge ch.tickFirst ch.order w.now).2
  | .step .persister => (s.stepPersister w.bridge ch.tickFirst ch.order w.now).2
  | _ => s

theorem service_step (w : World) (ch : Choice) (hserve : e.isServe = false) :
    (w.step ch e).service = w.service.map fun s ↦ e.onService w ch s := by
  have hsame : ∀ {w' : World}, w'.service = w.service → w'.service = w.service.map id :=
    fun hsame ↦ hsame.trans Option.map_id'.symm
  cases e with
  | serve sweepEvery persistEvery => cases hserve
  | stop => rfl
  | step τ =>
      cases τ with
      | flight n => exact hsame rfl
      | call n =>
          refine hsame ?_
          simp only [step, run]
          split <;> rfl
      | sweeper =>
          cases hs : w.service with
          | none => simp only [step, run, hs, Option.map_none]
          | some s => simp only [step, run, hs, Option.map_some, Event.onService]
      | persister =>
          cases hs : w.service with
          | none => simp only [step, run, hs, Option.map_none]
          | some s => simp only [step, run, hs, Option.map_some, Event.onService]
  | cancel n =>
      refine hsame ?_
      simp only [step, cancel]
      split <;> rfl
  | _ => exact hsame rfl

theorem service_step_of_some (hs : w.service = some s) (ch : Choice) (hserve : e.isServe = false) :
    (w.step ch e).service = some (e.onService w ch s) := by
  rw [service_step w ch hserve, hs, Option.map_some]

theorem callOf_persister (hs : w.service = some s) : w.callOf .persister = s.persister.pass? := by
  simp only [callOf, hs, Option.bind_some]

/-- Only its own steps change the state of the persist loop. -/
theorem samePersister_onService (s : Service) (w : World) (ch : Choice)
    (hstep : e ≠ .step .persister) : s.SamePersister (e.onService w ch s) := by
  have hsame : s.SamePersister s := ⟨rfl, rfl, rfl, rfl⟩
  cases e with
  | stop => exact Service.samePersister_stop
  | step τ =>
      cases τ with
      | sweeper => exact Service.samePersister_stepSweeper w.bridge ch.tickFirst ch.order w.now
      | persister => exact absurd rfl hstep
      | _ => exact hsame
  | _ => exact hsame

/-- As long as nobody sends the signal, nobody has sent it. -/
theorem untold_step (hs : w.InService Service.Untold) (hserve : e.isServe = false)
    (hstop : e ≠ .stop) : (w.step ch e).InService Service.Untold := by
  obtain ⟨s, hs, huntold⟩ := hs
  have hsignal : (e.onService w ch s).signal = s.signal := by
    cases e with
    | stop => exact absurd rfl hstop
    | step τ =>
        cases τ with
        | sweeper => exact huntold.signal_stepSweeper w.bridge ch.tickFirst ch.order w.now
        | persister => exact huntold.signal_stepPersister w.bridge ch.tickFirst ch.order w.now
        | _ => rfl
    | _ => rfl
  exact ⟨_, service_step_of_some hs ch hserve, fun n ↦ hsignal ▸ huntold n⟩

/-- What a run of the persist loop looks like up to its last pass, if it comes to an end. -/
theorem exists_hears (huntold : w.InService Service.Untold)
    (hunaware : w.InService (Service.Unaware every)) (hes : ∀ e ∈ es, e.2.isServe = false)
    (hended : (w.steps es).InService (·.persister = .ended)) :
    ∃ lead ch rest, es = lead ++ (ch, .step .persister) :: rest ∧
      w.Always (InService · (Service.Unaware every)) lead ∧
      (∃ e ∈ lead, e.2 = .stop) ∧ (w.steps lead).callOf .persister = none ∧
      ((w.steps lead).step ch (.step .persister)).callOf .persister = some (.begun .persist) ∧
      ((w.steps lead).step ch (.step .persister)).InService Service.Leaving := by
  have hstep : ∀ (v : World) ch e, (ch, e) ∈ es → v.InService (Service.Unaware every) →
      (v.step ch e).InService (Service.Unaware every) ∨ e = .step .persister ∧
        v.InService (fun s ↦ s.persister.pass? = none ∧
          s.signal.isReady Service.persistEar = true) ∧
        (v.step ch e).InService fun s ↦ s.Leaving ∧ s.persister.pass? = some (.begun .persist) := by
    rintro v ch e he ⟨s, hs, hunaware⟩
    by_cases hpersister : e = .step .persister
    · subst hpersister
      have hs' := service_step_of_some hs ch (hes _ he)
      rcases hunaware.step v.bridge ch.tickFirst ch.order v.now with
        hstill | ⟨hidle, hready, hleaving, hbegun⟩
      · exact .inl ⟨_, hs', hstill⟩
      · exact .inr ⟨rfl, ⟨s, hs, hidle, hready⟩, _, hs', hleaving, hbegun⟩
    · exact .inl ⟨_, service_step_of_some hs ch (hes _ he),
        hunaware.congr (samePersister_onService s v ch hpersister)⟩
  rcases always_or_exists hunaware hstep with halways |
    ⟨lead, ch, _, rest, rfl, halways, rfl, ⟨s₁, hs₁, hidle, hready⟩, s₂, hs₂, hleaving, hbegun⟩
  · obtain ⟨s₁, hs₁, hended⟩ := hended
    obtain ⟨s₂, hs₂, hunaware⟩ := halways.stop
    cases hs₁.symm.trans hs₂
    exact absurd hended hunaware.goesOn
  · refine ⟨lead, ch, rest, rfl, halways, ?_, (callOf_persister hs₁).trans hidle,
      (callOf_persister hs₂).trans hbegun, s₂, hs₂, hleaving⟩
    -- without the signal the loop would not have heard it
    by_contra hnone
    have hquiet : w.Always (InService · Service.Untold) lead :=
      always_of_step huntold fun v ch' e he h ↦ untold_step h (hes _ (List.mem_append_left _ he))
        fun hstop ↦ hnone ⟨_, he, hstop⟩
    obtain ⟨s₃, hs₃, huntold₃⟩ := hquiet.stop
    cases hs₁.symm.trans hs₃
    cases hready.symm.trans (huntold₃ Service.persistEar)

/-- What a run of the persist loop looks like from its last pass on, if it comes to an end. -/
theorem exists_leaves (hleaving : w.InService Service.Leaving)
    (hes : ∀ e ∈ es, e.2.isServe = false)
    (hended : (w.steps es).InService (·.persister = .ended)) :
    ∃ pass ch rest, es = pass ++ (ch, .step .persister) :: rest ∧
      w.Always (InService · Service.Leaving) pass ∧
      (∃ c report, (w.steps pass).callOf .persister = some c ∧
        ((w.steps pass).bridge.stepCall ch.order (w.steps pass).now c).2 =
          .answered (.report report)) ∧
      ((w.steps pass).step ch (.step .persister)).Always (InService · Service.Left) rest := by
  have hstep : ∀ (v : World) ch e, (ch, e) ∈ es → v.InService Service.Leaving →
      (v.step ch e).InService Service.Leaving ∨ e = .step .persister ∧
        (∃ c report, v.callOf .persister = some c ∧
          (v.bridge.stepCall ch.order v.now c).2 = .answered (.report report)) ∧
        (v.step ch e).InService Service.Left := by
    rintro v ch e he ⟨s, hs, hleaving⟩
    by_cases hpersister : e = .step .persister
    · subst hpersister
      have hs' := service_step_of_some hs ch (hes _ he)
      rcases hleaving.step v.bridge ch.tickFirst ch.order v.now with
        hstill | ⟨hleft, c, report, hc, hreport⟩
      · exact .inl ⟨_, hs', hstill⟩
      · exact .inr ⟨rfl, ⟨c, report, (callOf_persister hs).trans hc, hreport⟩, _, hs', hleft⟩
    · exact .inl ⟨_, service_step_of_some hs ch (hes _ he),
        hleaving.congr (samePersister_onService s v ch hpersister)⟩
  rcases always_or_exists hleaving hstep with halways |
    ⟨pass, ch, _, rest, rfl, halways, rfl, hreport, hleft⟩
  · obtain ⟨s₁, hs₁, hended⟩ := hended
    obtain ⟨s₂, hs₂, hleaving⟩ := halways.stop
    cases hs₁.symm.trans hs₂
    obtain ⟨tickAt, c, hpassing, -⟩ := hleaving.pass
    cases hended.symm.trans hpassing
  · refine ⟨pass, ch, rest, rfl, halways, hreport, always_of_step hleft ?_⟩
    rintro v ch' e he ⟨s, hs, hleft⟩
    have hserve : e.isServe = false :=
      hes _ (List.mem_append_right _ (List.mem_cons_of_mem _ he))
    refine ⟨_, service_step_of_some hs ch' hserve, ?_⟩
    by_cases hpersister : e = .step .persister
    · subst hpersister
      exact hleft.step v.bridge ch'.tickFirst ch'.order v.now
    · exact hleft.congr (samePersister_onService s v ch' hpersister)

end World

end GroupOffsets
