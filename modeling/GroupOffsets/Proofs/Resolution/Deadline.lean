import GroupOffsets.Proofs.Always
import GroupOffsets.Proofs.Backoff
import GroupOffsets.Proofs.Resolution.Progress

/-!
# Resolutions end in time

A resolution whose timers are kept lands within a time that only its schedule decides, however slow
the owner is.  The time for lookups counts from the start of the resolution, the one for delays from
the first failure.  `Flight.lastAnswer` brings the two together: it is put off at the first failure,
and once more by the last delay, and no lookup or delay reaches beyond it.
-/

namespace GroupOffsets

open World (Choice Event Task)

namespace Flight

variable {cfg : Backoff.Config} {start now now' delay t : Nat} {draw : Option Nat}
  {backoff : Backoff} {f : Flight}

/-! ## Time for lookups and time for delays

The first lookup fails within the longest wait.  Up to the mandatory stop after that, lookups begin,
and the last of them takes no longer than the initial delay.  One more delay and one more lookup can
follow, which take as long each. -/

/-- How long a resolution takes at most. -/
def timeLimit (cfg : Backoff.Config) : Nat :=
  Nat.max cfg.mandatoryStop cfg.initial + cfg.mandatoryStop + 3 * cfg.initial

/-- When a resolution that began at `start` gives up the lookup that it makes, or the next one, at
the latest. -/
def lastAnswer (cfg : Backoff.Config) (start : Nat) (f : Flight) : Nat :=
  match f.backoff.firstAt with
  | none => start + longestWait cfg
  | some first => first + cfg.mandatoryStop + cfg.initial +
    if f.backoff.stopMade then 2 * cfg.initial else 0

/-- A resolution that began at `start`. -/
structure Underway (cfg : Backoff.Config) (start : Nat) (f : Flight) : Prop where
  ranges : f.backoff.Ranges cfg
  deadline : f.deadline = start + cfg.mandatoryStop
  firstAt : ∀ t, f.backoff.firstAt = some t → start ≤ t ∧ t ≤ start + longestWait cfg

theorem underway_depart (cfg : Backoff.Config) (f : Flight) (start generation : Nat) :
    (f.depart cfg start generation).Underway cfg start :=
  ⟨Backoff.ranges_start cfg, rfl, fun t ht ↦ by cases ht⟩

theorem Underway.lastAnswer_le (h : f.Underway cfg start) :
    f.lastAnswer cfg start ≤ start + timeLimit cfg := by
  have hwait : longestWait cfg = Nat.max cfg.mandatoryStop cfg.initial := Nat.max_comm ..
  rw [lastAnswer, timeLimit]
  cases hfirst : f.backoff.firstAt with
  | none => dsimp only; omega
  | some first =>
      have hle := (h.firstAt first hfirst).2
      dsimp only
      split <;> omega

theorem Underway.deadline_le (h : f.Underway cfg start) :
    f.deadline ≤ f.lastAnswer cfg start := by
  have hwait : cfg.mandatoryStop ≤ longestWait cfg := Nat.le_max_right ..
  rw [h.deadline, lastAnswer]
  cases hfirst : f.backoff.firstAt with
  | none => exact Nat.add_le_add_left hwait start
  | some first =>
      have hle := (h.firstAt first hfirst).1
      dsimp only
      omega

/-- A lookup is given up by the deadline, or after the initial delay. -/
theorem Underway.budget_le (h : f.Underway cfg start)
    (hnow : now + cfg.initial ≤ f.lastAnswer cfg start) :
    now + f.budget cfg now ≤ f.lastAnswer cfg start := by
  have hbudget : f.budget cfg now ≤ f.lastAnswer cfg start - now :=
    Nat.max_le.mpr ⟨Nat.sub_le_sub_right h.deadline_le now, by omega⟩
  omega

/-- The first failure of a resolution that has not been given its last delay, which may be the one
that happens now. -/
theorem Underway.since_first (h : f.Underway cfg start) (hstart : start ≤ now)
    (hnow : now ≤ f.lastAnswer cfg start) (hgoes : f.backoff.stopMade = false) :
    let first := f.backoff.firstAt.getD now
    start ≤ first ∧ first ≤ start + longestWait cfg ∧
      now ≤ first + f.backoff.elapsed now ∧ now ≤ first + cfg.mandatoryStop + cfg.initial := by
  intro first
  simp only [lastAnswer, hgoes] at hnow
  simp only [first, Backoff.elapsed]
  cases hfirst : f.backoff.firstAt with
  | none =>
      simp only [hfirst] at hnow
      exact ⟨hstart, hnow, Nat.le_refl _, Nat.le_trans (Nat.le_add_right ..) (Nat.le_add_right ..)⟩
  | some t =>
      obtain ⟨hle, hfirst_le⟩ := h.firstAt t hfirst
      simp only [hfirst] at hnow
      refine ⟨hle, hfirst_le, ?_, hnow⟩
      dsimp only [Option.getD_some]
      omega

theorem lastAnswer_following (cfg : Backoff.Config) (start now : Nat) (f : Flight) (phase : Phase) :
    ({ f with backoff := f.backoff.following cfg now, phase } : Flight).lastAnswer cfg start =
      f.backoff.firstAt.getD now + cfg.mandatoryStop + cfg.initial +
        if f.backoff.overruns cfg now then 2 * cfg.initial else 0 := rfl

/-- After a failure in time, the next lookup can begin in time. -/
theorem Underway.retry (h : f.Underway cfg start) (hstart : start ≤ now)
    (hnow : now ≤ f.lastAnswer cfg start)
    (hnext : f.backoff.next cfg draw now = (some delay, backoff)) (phase : Phase) :
    ({ f with backoff, phase } : Flight).Underway cfg start ∧
      now + delay + cfg.initial ≤ ({ f with backoff, phase } : Flight).lastAnswer cfg start := by
  obtain ⟨hspent, rfl, -, hle⟩ := Backoff.next_eq_some hnext
  have hgoes := (Backoff.isSpent_eq_false.mp hspent).1
  obtain ⟨hfirst, hfirst_le, helapsed, hlate⟩ := h.since_first hstart hnow hgoes
  refine ⟨⟨h.ranges.following now, h.deadline, fun t ht ↦ ?_⟩, ?_⟩
  · cases ht
    exact ⟨hfirst, hfirst_le⟩
  · rw [lastAnswer_following]
    by_cases hover : f.backoff.overruns cfg now = true
    · rw [if_pos hover]
      rcases h.ranges.ends_or_le hle with hends | hinitial <;> omega
    · rw [if_neg hover]
      have hends := h.ranges.ends_of_fits (eq_false_of_ne_true hover) hle
      omega

/-! ## Resolutions in time -/

/-- The time that has to be left after a wait, for the next lookup if there is one. -/
def reserve (cfg : Backoff.Config) (f : Flight) : Nat :=
  match f.phase with
  | .pausing _ => cfg.initial
  | _ => 0

/-- A resolution that began at `start` waits, and goes on in time. -/
structure InTime (cfg : Backoff.Config) (start now : Nat) (f : Flight) : Prop where
  underway : f.Underway cfg start
  started : start ≤ now
  timer : ∃ t, f.timer = some t ∧ now ≤ t ∧ t + f.reserve cfg ≤ f.lastAnswer cfg start

/-- A resolution is in time as long as its timer is kept. -/
theorem InTime.wait (h : f.InTime cfg start now) (ht : f.timer = some t) (hnow : now ≤ now')
    (hkept : now' ≤ t) : f.InTime cfg start now' := by
  obtain ⟨hunderway, hstart, t', ht', -, hlast⟩ := h
  cases ht.symm.trans ht'
  exact ⟨hunderway, Nat.le_trans hstart hnow, t, ht, hkept, hlast⟩

theorem InTime.le_lastAnswer (h : f.InTime cfg start now) :
    now + f.reserve cfg ≤ f.lastAnswer cfg start := by
  obtain ⟨t, -, hnow, hlast⟩ := h.timer
  exact Nat.le_trans (Nat.add_le_add_right hnow _) hlast

theorem InTime.phase_ne (h : f.InTime cfg start now) : f.phase ≠ .boarding := by
  intro hphase
  obtain ⟨t, ht, -⟩ := h.timer
  rw [Flight.timer, hphase] at ht
  cases ht

/-- A resolution that is run in time: for the first time at `start`, or when it has waited no longer
than it had to. -/
def Prompt (cfg : Backoff.Config) (start now : Nat) (f : Flight) : Prop :=
  f.phase = .boarding ∧ now = start ∨ f.InTime cfg start now

theorem Prompt.le_limit (h : f.Prompt cfg start now) : now ≤ start + timeLimit cfg := by
  rcases h with ⟨-, rfl⟩ | hintime
  · exact Nat.le_add_right ..
  · exact Nat.le_trans (Nat.le_of_add_right_le hintime.le_lastAnswer)
      hintime.underway.lastAnswer_le

end Flight

namespace Bridge

variable {b b' : Bridge} {draw : Option Nat} {start now n : Nat} {f f₁ : Flight}
  {l : Option Lookup} {cfg : Backoff.Config}

/-- A resolution has landed in time, or is in time. -/
inductive OnTime (cfg : Backoff.Config) (b : Bridge) (start now n : Nat) : Prop
  | aloft {f : Flight} (aloft : b.aloft[n]? = some f) (in_time : f.InTime cfg start now)
  | landed {o : Option Resolution} (outcome : b.flights.outcome? n = some o)
      (by_limit : now ≤ start + Flight.timeLimit cfg)

theorem Judges.onTime (hj : Judges b draw now n f l b') (hb : b.Aboard)
    (haloft : (b.aloft[n]?).isSome) (hcfg : b.settings.retry = cfg) (hclock : b.clock now = now)
    (h : f.Underway cfg start) (hstart : start ≤ now) (hnow : now ≤ f.lastAnswer cfg start) :
    OnTime cfg b' start now n := by
  cases hj with
  | lands settles flights aloft =>
      exact .landed (hb.outcome?_of_finish haloft flights) (Nat.le_trans hnow h.lastAnswer_le)
  | @pauses delay backoff transient granted flights aloft =>
      rw [hcfg, hclock] at granted
      obtain ⟨hunderway, hlast⟩ := h.retry hstart hnow granted (.pausing (now + delay))
      exact .aloft (aloft ▸ Std.ExtTreeMap.getElem?_insert_self)
        ⟨hunderway, hstart, now + delay, rfl, Nat.le_add_right .., hlast⟩

/-- A lookup that is begun in time can be answered in time. -/
theorem SetsOut.underway (hout : SetsOut b now f f₁) (hcfg : b.settings.retry = cfg)
    (hclock : b.clock now = now) (h : f.Prompt cfg start now) :
    f₁.Underway cfg start ∧ start ≤ now ∧ now + cfg.initial ≤ f₁.lastAnswer cfg start := by
  cases hout with
  | departs boarding =>
      rcases h with ⟨-, rfl⟩ | hintime
      · rw [hclock, hcfg]
        exact ⟨Flight.underway_depart .., Nat.le_refl _, Nat.add_le_add_left (Nat.le_max_left ..) _⟩
      · exact absurd boarding hintime.phase_ne
  | resumes pausing slept =>
      rcases h with ⟨boarding, -⟩ | hintime
      · cases pausing.symm.trans boarding
      · have hreserve : f.reserve cfg = cfg.initial := by rw [Flight.reserve, pausing]
        exact ⟨hintime.underway, hintime.started, hreserve ▸ hintime.le_lastAnswer⟩

/-- A resolution that is run in time stays in time, or lands. -/
theorem onTime_stepFlight (hf : b.aloft[n]? = some f) (h : f.Prompt cfg start now) (hb : b.Aboard)
    (hcfg : b.settings.retry = cfg) (hclock : b.clock now = now) (draw : Option Nat) :
    OnTime cfg (b.stepFlight draw now n) start now n := by
  have hsome : (b.aloft[n]?).isSome := Option.isSome_iff_exists.mpr ⟨f, hf⟩
  have hproceeds := proceeds_stepFlight draw now hf
  generalize b.stepFlight draw now n = b' at hproceeds
  generalize b.logged draw now n f = more at hproceeds
  cases hproceeds with
  | waits blocked same =>
      rcases h with ⟨boarding, -⟩ | hintime
      · rw [Flight.isBlocked, boarding] at blocked
        cases blocked
      · exact same ▸ .aloft hf hintime
  | meets boarding flights aloft =>
      exact .landed (hb.outcome?_of_finish hsome flights) h.le_limit
  | @locates f₁ sets_out flights aloft =>
      obtain ⟨hunderway, hstart, hlast⟩ := sets_out.underway hcfg hclock h
      rw [hcfg, hclock] at aloft
      have hlocating : b'.aloft[n]? = some { f₁ with
          phase := .locating (now + b.store.lookupDelay) (now + f₁.budget cfg now) } := by
        rw [aloft]
        exact Std.ExtTreeMap.getElem?_insert_self
      refine .aloft hlocating ⟨⟨hunderway.ranges, hunderway.deadline, hunderway.firstAt⟩, hstart,
        _, rfl, Nat.le_min.mpr ⟨Nat.le_add_right .., Nat.le_add_right ..⟩, ?_⟩
      exact Nat.le_trans (Nat.min_le_right ..) (hunderway.budget_le hlast)
  | tries sets_out judges =>
      obtain ⟨hunderway, hstart, hlast⟩ := sets_out.underway hcfg hclock h
      exact judges.onTime hb hsome hcfg hclock hunderway hstart
        (Nat.le_trans (Nat.le_add_right ..) hlast)
  | answers locating judges =>
      rcases h with ⟨boarding, -⟩ | hintime
      · cases locating.symm.trans boarding
      · exact judges.onTime hb hsome hcfg hclock hintime.underway hintime.started
          (Nat.le_of_add_right_le hintime.le_lastAnswer)

end Bridge

namespace World

variable {w : World} {ch : Choice} {e : Event} {es es' : List (Choice × Event)}
  {n k start limit : Nat} {cfg : Backoff.Config} {f : Flight}

/-! ## Runs that keep a timer -/

/-- No more time has passed than the timer of a resolution allows. -/
def Punctual (n : Nat) (w : World) : Prop := ∀ t ∈ w.timer (.flight n), w.now ≤ t

instance (n : Nat) : DecidablePred (Punctual n) :=
  fun w ↦ inferInstanceAs (Decidable (∀ t ∈ w.timer (.flight n), w.now ≤ t))

theorem timer_of_aloft (hf : w.bridge.aloft[n]? = some f) : w.timer (.flight n) = f.timer := by
  rw [timer, hf]
  rfl

/-- A resolution lands in a run, and no later than `limit`. -/
def LandsBy (w : World) (n limit : Nat) (es : List (Choice × Event)) : Prop :=
  ∃ done rest o, es = done ++ rest ∧ (w.steps done).bridge.flights.outcome? n = some o ∧
    (w.steps done).now ≤ limit

theorem landsBy_of_landed {o : Option Resolution} (h : w.bridge.flights.outcome? n = some o)
    (hnow : w.now ≤ limit) (es : List (Choice × Event)) : w.LandsBy n limit es :=
  ⟨[], es, o, rfl, h, hnow⟩

theorem LandsBy.cons (h : (w.step ch e).LandsBy n limit es) : w.LandsBy n limit ((ch, e) :: es) := by
  obtain ⟨done, rest, o, rfl, houtcome, hnow⟩ := h
  exact ⟨(ch, e) :: done, rest, o, rfl, houtcome, hnow⟩

theorem LandsBy.append (h : w.LandsBy n limit es) (es' : List (Choice × Event)) :
    w.LandsBy n limit (es ++ es') := by
  obtain ⟨done, rest, o, rfl, houtcome, hnow⟩ := h
  exact ⟨done, rest ++ es', o, List.append_assoc .., houtcome, hnow⟩

theorem LandsBy.after (h : (w.steps es).LandsBy n limit es') : w.LandsBy n limit (es ++ es') := by
  obtain ⟨done, rest, o, rfl, houtcome, hnow⟩ := h
  rw [← steps_append] at houtcome hnow
  exact ⟨es ++ done, rest, o, (List.append_assoc ..).symm, houtcome, hnow⟩

/-! ## Resolutions in a run -/

/-- A resolution has begun, in a world whose schedules run by the clock of its timers. -/
structure Clocked (w : World) (cfg : Backoff.Config) (n : Nat) : Prop extends w.Begun cfg n where
  manualClock : w.bridge.manualClock = none

theorem Clocked.clock_eq (h : w.Clocked cfg n) : w.bridge.clock w.now = w.now := by
  rw [Bridge.clock, h.manualClock]
  rfl

theorem manualClock_steps (h : w.bridge.manualClock = none) (es : List (Choice × Event)) :
    (w.steps es).bridge.manualClock = none := by
  refine steps_of_step (·.bridge.manualClock = none) (fun w ch e h ↦ ?_) h es
  obtain ⟨ms, hclock⟩ := manualClock_step w ch e
  rw [hclock, h]
  rfl

theorem Clocked.steps (h : w.Clocked cfg n) (es : List (Choice × Event)) :
    (w.steps es).Clocked cfg n :=
  ⟨h.toBegun.steps es, manualClock_steps h.manualClock es⟩

theorem Clocked.step (h : w.Clocked cfg n) (ch : Choice) (e : Event) :
    (w.step ch e).Clocked cfg n := h.steps [(ch, e)]

/-- The timer of a resolution that is on time is not over. -/
theorem punctual_of_onTime (hw : w.Aboard) (h : w.bridge.OnTime cfg start w.now n) :
    w.Punctual n := by
  intro t ht
  cases h with
  | aloft aloft in_time =>
      obtain ⟨t', ht', hnow, -⟩ := in_time.timer
      rw [timer_of_aloft aloft, ht'] at ht
      cases ht
      exact hnow
  | landed outcome =>
      rw [timer, hw.bridge.aloft_of_landed outcome] at ht
      cases ht

/-- While its timer is kept, a resolution stays in time, or lands. -/
theorem onTime_step (hw : w.Clocked cfg n) (hf : w.bridge.aloft[n]? = some f)
    (h : f.InTime cfg start w.now) (ch : Choice) (e : Event)
    (hkept : (w.step ch e).Punctual n) :
    (w.step ch e).bridge.OnTime cfg start (w.step ch e).now n := by
  by_cases he : e = .step (.flight n)
  · subst he
    exact Bridge.onTime_stepFlight hf (.inr h) hw.aboard.bridge hw.retry hw.clock_eq ch.draw
  · have haloft : (w.step ch e).bridge.aloft[n]? = some f := (unmoved_step hw.old he).1.trans hf
    obtain ⟨t, ht, -⟩ := h.timer
    exact .aloft haloft (h.wait ht (now_le_step w ch e) (hkept t (timer_of_aloft haloft ▸ ht)))

/-- Along a run that keeps its timers, a resolution lands in time, or is in time up to the end. -/
theorem landsBy_or_inTime (hw : w.Clocked cfg n) (h : w.bridge.OnTime cfg start w.now n)
    (hes : w.Always (Punctual n) es) : w.LandsBy n (start + Flight.timeLimit cfg) es ∨
      ∃ f, (w.steps es).bridge.aloft[n]? = some f ∧ f.InTime cfg start (w.steps es).now := by
  induction es generalizing w with
  | nil =>
      cases h with
      | aloft aloft in_time => exact .inr ⟨_, aloft, in_time⟩
      | landed outcome by_limit => exact .inl (landsBy_of_landed outcome by_limit [])
  | cons e es ih =>
      cases h with
      | aloft aloft in_time =>
          have hstep := onTime_step hw aloft in_time e.1 e.2 hes.tail.start
          exact (ih (hw.step e.1 e.2) hstep hes.tail).imp_left .cons
      | landed outcome by_limit => exact .inl (landsBy_of_landed outcome by_limit (e :: es))

/-- A resolution that is run when its timer is over gets closer to its end. -/
theorem nears_of_waited {t : Nat} (h : w.bridge.Nears cfg w.now n (k + 1)) (hw : w.Begun cfg n)
    (hf : w.bridge.aloft[n]? = some f) (ht : f.timer = some t) (hnow : t ≤ w.now) (ch : Choice) :
    (w.step ch (.step (.flight n))).bridge.Nears cfg (w.step ch (.step (.flight n))).now n k := by
  cases h with
  | landed outcome => cases (hw.aboard.bridge.aloft_of_landed outcome).symm.trans hf
  | aloft aloft timely rank =>
      cases hf.symm.trans aloft
      refine (Bridge.nears_stepFlight hf timely rank hw.aboard.bridge hw.retry
        ch.draw).resolve_left fun ⟨hblocked, _⟩ ↦ ?_
      obtain ⟨t', ht', hlt⟩ := Flight.isBlocked_iff.mp hblocked
      cases ht.symm.trans ht'
      exact absurd hlt (Nat.not_lt.mpr hnow)

/-- A resolution that is on time gets closer to its end when it is run as soon as its timer is
over. -/
theorem exists_round (hnears : w.bridge.Nears cfg w.now n (k + 1)) (hw : w.Clocked cfg n)
    (hf : w.bridge.aloft[n]? = some f) (h : f.InTime cfg start w.now) :
    ∃ es, w.Always (Punctual n) es ∧ (w.steps es).bridge.Nears cfg (w.steps es).now n k ∧
      (w.steps es).bridge.OnTime cfg start (w.steps es).now n := by
  obtain ⟨t, ht, hnow, -⟩ := h.timer
  let wait : List (Choice × Event) := [(.plain, .elapse (t - w.now))]
  let go : Choice × Event := (.plain, .step (.flight n))
  have hwaited : (w.steps wait).now = t := Nat.add_sub_cancel' hnow
  have hw' : (w.steps wait).Clocked cfg n := hw.steps wait
  have hf' : (w.steps wait).bridge.aloft[n]? = some f := hf
  have h' : f.InTime cfg start (w.steps wait).now :=
    h.wait ht (Nat.le_trans hnow (Nat.le_of_eq hwaited.symm)) (Nat.le_of_eq hwaited)
  let w'' := (w.steps wait).step go.1 go.2
  have hcloser : w''.bridge.Nears cfg w''.now n k :=
    nears_of_waited (nears_steps hnears hw.toBegun wait) hw'.toBegun hf' ht
      (Nat.le_of_eq hwaited.symm) .plain
  have hontime : w''.bridge.OnTime cfg start w''.now n :=
    Bridge.onTime_stepFlight hf' (.inr h') hw'.aboard.bridge hw'.retry hw'.clock_eq _
  refine ⟨wait ++ [go], .cons ?_ (.cons ?_ (always_nil ?_)), hcloser, hontime⟩
  · exact punctual_of_onTime hw.aboard (.aloft hf h)
  · exact punctual_of_onTime hw'.aboard (.aloft hf' h')
  · exact punctual_of_onTime (hw'.step ..).aboard hontime

/-- A resolution that is on time can be run to its end so that its timers are kept. -/
theorem exists_landsBy (hnears : w.bridge.Nears cfg w.now n k) (hw : w.Clocked cfg n)
    (h : w.bridge.OnTime cfg start w.now n) :
    ∃ es, w.Always (Punctual n) es ∧ w.LandsBy n (start + Flight.timeLimit cfg) es := by
  induction k generalizing w with
  | zero =>
      cases hnears with
      | aloft aloft timely rank => exact absurd Flight.rank_pos (Nat.not_lt.mpr rank)
      | landed outcome =>
          have hpunctual := punctual_of_onTime hw.aboard h
          cases h with
          | aloft aloft => cases (hw.aboard.bridge.aloft_of_landed outcome).symm.trans aloft
          | landed outcome by_limit =>
              exact ⟨[], always_nil hpunctual, landsBy_of_landed outcome by_limit []⟩
  | succ k ih =>
      have hpunctual := punctual_of_onTime hw.aboard h
      cases h with
      | aloft aloft in_time =>
          obtain ⟨es, halways, hcloser, hontime⟩ := exists_round hnears hw aloft in_time
          obtain ⟨es', halways', hlands⟩ := ih hcloser (hw.steps es) hontime
          exact ⟨es ++ es', halways.append halways', hlands.after⟩
      | landed outcome by_limit =>
          exact ⟨[], always_nil hpunctual, landsBy_of_landed outcome by_limit []⟩

/-- A resolution whose timers are kept has landed when the longest time that its schedule allows is
over, counted from its first step, whatever else happens and whatever the store does.  At any time
before, it can go on and land by then. -/
theorem resolution_lands_in_time (settings : Bridge.Settings) (store : Store) (now : Nat)
    (before es : List (Choice × Event)) (n : Nat) (f : Flight) (ch : Choice) :
    let w := (new now (.new settings store none)).steps before
    let started := w.step ch (.step (.flight n))
    let limit := w.now + Flight.timeLimit settings.retry
    w.bridge.aloft[n]? = some f → f.phase = .boarding → started.Always (Punctual n) es →
      (limit < (started.steps es).now → started.LandsBy n limit es) ∧
      ∃ es', started.Always (Punctual n) (es ++ es') ∧ started.LandsBy n limit (es ++ es') := by
  intro w started limit hf hphase hes
  have hnew : (new now (.new settings store none)).Aboard := aboard_new (Bridge.aboard_new ..) now
  have haboard : w.Aboard := aboard_steps hnew before
  have hold := haboard.bridge.sound.works_old (haboard.bridge.works_eq hf)
  have hw : w.Clocked settings.retry n :=
    ⟨⟨haboard, hold, by rw [settings_steps]; rfl⟩, manualClock_steps rfl before⟩
  have hontime : started.bridge.OnTime settings.retry w.now started.now n :=
    Bridge.onTime_stepFlight hf (.inl ⟨hphase, rfl⟩) haboard.bridge hw.retry hw.clock_eq ch.draw
  have hend := landsBy_or_inTime (hw.step ch _) hontime hes
  constructor
  · intro hlate
    refine hend.resolve_right fun ⟨f', _, hintime⟩ ↦ ?_
    exact absurd (Flight.Prompt.le_limit (.inr hintime)) (Nat.not_le.mpr hlate)
  · rcases hend with hlands | ⟨f', hf', hintime⟩
    · exact ⟨[], by rwa [List.append_nil], hlands.append []⟩
    · have hnears : w.bridge.Nears settings.retry w.now n _ :=
        exists_nears hnew (Nat.zero_le n) hold
      have hstarted := nears_step hnears hw.toBegun ch (.step (.flight n))
      obtain ⟨es', halways, hlands⟩ := exists_landsBy
        (nears_steps hstarted (hw.step ch _).toBegun es) ((hw.step ch _).steps es)
        (.aloft hf' hintime)
      exact ⟨es', hes.append halways, hlands.after⟩

/-- A world in which a partition is asked for, and its owner does not answer in time. -/
def unanswered : World :=
  (new 0 (.new ⟨[], ⟨5, 5, 5, 10⟩, 60⟩ (.new "node" ∅) none)).steps
    [(.plain, .operate (.setLookupDelay 1000)), (.plain, .call (.resolve ⟨"t", 0⟩)),
      (.plain, .step (.call 0)), (.plain, .step (.call 0))]

def firstLookup : World := unanswered.step .plain (.step (.flight 0))

/-- Three lookups are given up, with a delay after each of the first two. -/
def givesUp : List (Choice × Event) :=
  (List.replicate 5 [(.plain, .elapse 5), (.plain, .step (.flight 0))]).flatten ++
    [(.plain, .elapse 1)]

theorem lands_at_time_limit :
    firstLookup.LandsBy 0 25 givesUp ∧ (firstLookup.steps (givesUp.take 9)).now = 25 ∧
      (firstLookup.steps (givesUp.take 9)).bridge.aloft.contains 0 := by
  have hf : unanswered.bridge.aloft[0]? = some (.board ⟨5, 5, 5, 10⟩ ⟨"t", 0⟩) := by decide
  have hes : firstLookup.Always (Punctual 0) givesUp := by decide +kernel
  exact ⟨(resolution_lands_in_time ⟨[], ⟨5, 5, 5, 10⟩, 60⟩ (.new "node" ∅) 0 _ givesUp 0 _ .plain
    hf rfl hes).1 (by decide +kernel), by decide +kernel, by decide +kernel⟩

end World

end GroupOffsets
