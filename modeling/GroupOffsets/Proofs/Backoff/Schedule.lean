import GroupOffsets.Proofs.Backoff

/-!
# The schedule in closed form

What a schedule without cuts gives depends on nothing but the moments at which it was asked since
its last reset.  The first delays double up to the maximum; one that would overrun the mandatory
stop is fitted to it, and no other one follows.
-/

namespace GroupOffsets

namespace Backoff

/-- The delay that comes after `k` others, if it does not overrun the mandatory stop. -/
def planned (cfg : Config) (k : Nat) : Nat := Nat.min (cfg.initial * 2 ^ k) cfg.max

/-- The moments at which delays are asked for, after those of `before`, since the last reset. -/
def asked (now : Nat) (before : List Nat) : List Event → List Nat
  | [] => before
  | .ask _ :: es => asked now (before ++ [now]) es
  | .elapse time :: es => asked (now + time) before es
  | .reset :: es => asked now [] es

/-- The time from the first of some moments up to `now`. -/
def sinceFirst (ts : List Nat) (now : Nat) : Nat := now - ts.headD now

/-- The delay that was asked for after `k` others would have overrun the mandatory stop. -/
def Overdue (cfg : Config) (ts : List Nat) (k : Nat) : Prop :=
  ∃ t, ts[k]? = some t ∧ cfg.mandatoryStop < sinceFirst ts t + planned cfg k

/-- One of the delays that were asked for was the last one, for the mandatory stop. -/
def Stopped (cfg : Config) (ts : List Nat) : Prop := ∃ k < cfg.maxAttempts, Overdue cfg ts k

instance (cfg : Config) (ts : List Nat) (k : Nat) : Decidable (Overdue cfg ts k) :=
  inferInstanceAs
    (Decidable (∃ t ∈ ts[k]?, cfg.mandatoryStop < sinceFirst ts t + planned cfg k))

instance (cfg : Config) (ts : List Nat) : Decidable (Stopped cfg ts) :=
  inferInstanceAs (Decidable (∃ k < cfg.maxAttempts, Overdue cfg ts k))

variable {cfg : Config} {b : Backoff} {ts : List Nat} {now k n perMilli : Nat}

/-! ## Moments -/

theorem sinceFirst_concat_self (ts : List Nat) (now : Nat) :
    sinceFirst (ts ++ [now]) now = sinceFirst ts now := by
  cases ts <;> rfl

theorem overdue_concat_self : Overdue cfg (ts ++ [now]) ts.length ↔
    cfg.mandatoryStop < sinceFirst ts now + planned cfg ts.length := by
  simp [Overdue, sinceFirst_concat_self]

theorem overdue_concat_of_lt (h : k < ts.length) :
    Overdue cfg (ts ++ [now]) k ↔ Overdue cfg ts k := by
  have hfirst : ∀ t, sinceFirst (ts ++ [now]) t = sinceFirst ts t := by
    intro t
    cases ts with
    | nil => cases h
    | cons => rfl
  simp only [Overdue, List.getElem?_append_left h, hfirst]

theorem not_overdue_of_le (h : ts.length ≤ k) : ¬ Overdue cfg ts k := by
  rintro ⟨t, ht, -⟩
  rw [List.getElem?_eq_none h] at ht
  cases ht

/-- A delay that is asked for is the last one if an earlier one was, or if it is overdue. -/
theorem stopped_concat : Stopped cfg (ts ++ [now]) ↔ Stopped cfg ts ∨
    ts.length < cfg.maxAttempts ∧
      cfg.mandatoryStop < sinceFirst ts now + planned cfg ts.length := by
  constructor
  · rintro ⟨k, hk, hoverdue⟩
    rcases Nat.lt_trichotomy k ts.length with hlt | rfl | hgt
    · exact .inl ⟨k, hk, (overdue_concat_of_lt hlt).mp hoverdue⟩
    · exact .inr ⟨hk, overdue_concat_self.mp hoverdue⟩
    · refine absurd hoverdue (not_overdue_of_le ?_)
      rwa [List.length_append]
  · rintro (⟨k, hk, hoverdue⟩ | ⟨hk, hoverdue⟩)
    · have hlt : k < ts.length := Nat.lt_of_not_le fun hle ↦ not_overdue_of_le hle hoverdue
      exact ⟨k, hk, (overdue_concat_of_lt hlt).mpr hoverdue⟩
    · exact ⟨ts.length, hk, overdue_concat_self.mpr hoverdue⟩

theorem planned_zero (h : cfg.initial ≤ cfg.max) : planned cfg 0 = cfg.initial := by
  rw [planned, Nat.pow_zero, Nat.mul_one]
  exact Nat.min_eq_left h

/-- Delays double up to the maximum. -/
theorem planned_succ (cfg : Config) (k : Nat) : planned cfg (k + 1) =
    if planned cfg k < cfg.max then Nat.min (planned cfg k * 2) cfg.max else planned cfg k := by
  have hdouble : cfg.initial * 2 ^ (k + 1) = cfg.initial * 2 ^ k * 2 := by
    rw [Nat.pow_succ, Nat.mul_assoc]
  have hle : cfg.initial * 2 ^ k ≤ cfg.initial * 2 ^ k * 2 := Nat.le_mul_of_pos_right _ Nat.two_pos
  rw [planned, hdouble]
  rcases Nat.lt_or_ge (cfg.initial * 2 ^ k) cfg.max with hlt | hge
  · have hplanned : planned cfg k = cfg.initial * 2 ^ k := Nat.min_eq_left (Nat.le_of_lt hlt)
    rw [hplanned, if_pos hlt]
  · have hplanned : planned cfg k = cfg.max := Nat.min_eq_right hge
    rw [hplanned, if_neg (Nat.lt_irrefl _)]
    exact Nat.min_eq_right (Nat.le_trans hge hle)

theorem initial_le_planned (h : cfg.initial ≤ cfg.max) (k : Nat) : cfg.initial ≤ planned cfg k :=
  Nat.le_min.mpr ⟨Nat.le_mul_of_pos_right _ (Nat.two_pow_pos k), h⟩

theorem planned_le_max (cfg : Config) (k : Nat) : planned cfg k ≤ cfg.max := Nat.min_le_right ..

/-! ## Where a schedule stands -/

/-- A schedule that has been asked for delays at some moments since its reset. -/
structure Stands (cfg : Config) (ts : List Nat) (b : Backoff) : Prop where
  spent : b.isSpent cfg = true ↔ Stopped cfg ts ∨ cfg.maxAttempts ≤ ts.length
  live : b.isSpent cfg = false → b = ⟨planned cfg ts.length, ts.head?, false, ts.length⟩
  stopMade : b.stopMade = true ↔ Stopped cfg ts

theorem stands_start (h : cfg.initial ≤ cfg.max) : Stands cfg [] (.start cfg) := by
  have hunstopped : ¬ Stopped cfg [] := by
    rintro ⟨k, -, hoverdue⟩
    exact not_overdue_of_le (Nat.zero_le k) hoverdue
  refine ⟨?_, fun _ ↦ ?_, ?_⟩
  · simp [isSpent_eq_true, hunstopped, start]
  · rw [start, List.length_nil, planned_zero h]
    rfl
  · simp [hunstopped, start]

theorem Stands.elapsed_eq (h : Stands cfg ts b) (hspent : b.isSpent cfg = false) (now : Nat) :
    b.elapsed now = sinceFirst ts now := by
  rw [h.live hspent, elapsed, sinceFirst]
  cases ts with
  | nil => exact (Nat.sub_self now).symm
  | cons => rfl

theorem Stands.upcoming_eq (h : Stands cfg ts b) (hspent : b.isSpent cfg = false) :
    b.upcoming = planned cfg ts.length := by
  rw [h.live hspent]

theorem Stands.overruns_iff (h : Stands cfg ts b) (hspent : b.isSpent cfg = false) :
    b.overruns cfg now = true ↔
      cfg.mandatoryStop < sinceFirst ts now + planned cfg ts.length := by
  rw [overruns_eq_true, h.elapsed_eq hspent, h.upcoming_eq hspent]

/-- A spent schedule stays as it is, whenever it is asked. -/
theorem Stands.concat_of_spent (h : Stands cfg ts b) (hspent : b.isSpent cfg = true)
    (now : Nat) : Stands cfg (ts ++ [now]) b := by
  have hstopped : Stopped cfg (ts ++ [now]) ↔ Stopped cfg ts := by
    rw [stopped_concat]
    rcases h.spent.mp hspent with hstopped | hattempts
    · exact or_iff_left_of_imp fun _ ↦ hstopped
    · exact or_iff_left fun ⟨hlt, _⟩ ↦ absurd hattempts (Nat.not_le.mpr hlt)
  refine ⟨⟨fun hspent ↦ ?_, fun _ ↦ hspent⟩, fun hlive ↦ ?_, h.stopMade.trans hstopped.symm⟩
  · rw [hstopped, List.length_append]
    exact (h.spent.mp hspent).imp_right fun hle ↦ Nat.le_trans hle (Nat.le_add_right ..)
  · rw [hspent] at hlive
    cases hlive

/-- A schedule that gives a delay is as far as it has been asked. -/
theorem Stands.following (h : Stands cfg ts b) (hspent : b.isSpent cfg = false) (now : Nat) :
    Stands cfg (ts ++ [now]) (b.following cfg now) := by
  obtain ⟨hunstopped, hleft⟩ : ¬ Stopped cfg ts ∧ ts.length < cfg.maxAttempts := by
    have hnot := mt h.spent.mpr (ne_true_of_eq_false hspent)
    exact ⟨fun hstopped ↦ hnot (.inl hstopped), Nat.lt_of_not_le fun hle ↦ hnot (.inr hle)⟩
  have hstopped : (b.following cfg now).stopMade = true ↔ Stopped cfg (ts ++ [now]) := by
    rw [Backoff.following, h.overruns_iff hspent, stopped_concat]
    simp only [hunstopped, hleft, false_or, true_and]
  have hlive := h.live hspent
  have hattempts : (b.following cfg now).attempts = (ts ++ [now]).length := by
    rw [Backoff.following, hlive, List.length_append]
    rfl
  refine ⟨?_, fun hspent' ↦ ?_, hstopped⟩
  · rw [isSpent_eq_true, hstopped, hattempts]
  · have hupcoming : (b.following cfg now).upcoming = planned cfg (ts ++ [now]).length := by
      rw [Backoff.following, h.upcoming_eq hspent, List.length_append]
      exact (planned_succ cfg ts.length).symm
    have hfirst : (b.following cfg now).firstAt = (ts ++ [now]).head? := by
      rw [Backoff.following, hlive]
      cases ts <;> rfl
    have hgoes : (b.following cfg now).stopMade = false := (isSpent_eq_false.mp hspent').1
    rw [← hupcoming, ← hfirst, ← hattempts, ← hgoes]

namespace Timed

variable {cutting : Bool} {s : Timed}

theorem stands_ask (h : Stands cfg ts s.schedule) (n : Nat) :
    Stands cfg (ts ++ [s.now]) (s.ask cfg perMilli cutting n).2.schedule := by
  cases hspent : s.schedule.isSpent cfg with
  | true =>
      rw [ask_of_spent hspent]
      exact h.concat_of_spent hspent s.now
  | false =>
      rw [ask_of_not_spent hspent]
      exact h.following hspent s.now

/-- In a run, a schedule stands where the moments at which it was asked have brought it. -/
theorem stands_run (hcfg : cfg.initial ≤ cfg.max) (h : Stands cfg ts s.schedule)
    (es : List Event) :
    Stands cfg (asked s.now ts es) (s.run cfg perMilli cutting es).schedule := by
  induction es generalizing s ts with
  | nil => exact h
  | cons e es ih =>
      cases e with
      | ask n => exact ih (s := (s.ask cfg perMilli cutting n).2) (stands_ask h n)
      | elapse time => exact ih (s := { s with now := s.now + time }) h
      | reset => exact ih (s := ⟨s.now, .start cfg⟩) (stands_start hcfg)

/-! ## Delays without cuts -/

/-- A delay that does not overrun the mandatory stop is the planned one. -/
theorem ask_of_fits (hcfg : cfg.initial ≤ cfg.max) (h : Stands cfg ts s.schedule)
    (hspent : s.schedule.isSpent cfg = false)
    (hfits : sinceFirst ts s.now + planned cfg ts.length ≤ cfg.mandatoryStop) (n : Nat) :
    (s.ask cfg perMilli false n).1 = some (planned cfg ts.length) ∧
      (s.ask cfg perMilli false n).2.schedule.stopMade = false ∧
      (s.ask cfg perMilli false n).2.schedule.attempts = ts.length + 1 := by
  have hover : s.schedule.overruns cfg s.now = false := by
    rw [overruns_eq_false, h.elapsed_eq hspent, h.upcoming_eq hspent]
    exact hfits
  rw [ask_of_not_spent hspent, fitted_of_fits hover, h.upcoming_eq hspent]
  refine ⟨?_, hover, by rw [following, h.live hspent]⟩
  exact congrArg some (Nat.max_eq_left (initial_le_planned hcfg ts.length))

/-- One that does is fitted to it, and is the last. -/
theorem ask_of_overruns (h : Stands cfg ts s.schedule) (hspent : s.schedule.isSpent cfg = false)
    (hlate : cfg.mandatoryStop < sinceFirst ts s.now + planned cfg ts.length) (n : Nat) :
    (s.ask cfg perMilli false n).1 =
        some (Nat.max cfg.initial (cfg.mandatoryStop - sinceFirst ts s.now)) ∧
      (s.ask cfg perMilli false n).2.schedule.stopMade = true ∧
      (s.ask cfg perMilli false n).2.schedule.attempts = ts.length + 1 := by
  have hover : s.schedule.overruns cfg s.now = true := (h.overruns_iff hspent).mpr hlate
  rw [ask_of_not_spent hspent, fitted_of_overruns hover, h.elapsed_eq hspent]
  refine ⟨?_, hover, by rw [following, h.live hspent]⟩
  exact congrArg some (Nat.max_eq_left (Nat.le_max_left ..))

theorem ask_mem_range {delay : Nat} (hcfg : cfg.initial ≤ cfg.max) (h : Stands cfg ts s.schedule)
    (hdelay : (s.ask cfg perMilli false n).1 = some delay) :
    cfg.initial ≤ delay ∧ delay ≤ cfg.max := by
  cases hspent : s.schedule.isSpent cfg with
  | true =>
      rw [ask_of_spent hspent] at hdelay
      cases hdelay
  | false =>
      rcases Nat.lt_or_ge cfg.mandatoryStop (sinceFirst ts s.now + planned cfg ts.length)
        with hlate | hfits
      · have hanswer : (s.ask cfg perMilli false n).1 = _ := (ask_of_overruns h hspent hlate n).1
        cases hanswer.symm.trans hdelay
        have hmax := planned_le_max cfg ts.length
        exact ⟨Nat.le_max_left .., Nat.max_le.mpr ⟨hcfg, by omega⟩⟩
      · have hanswer : (s.ask cfg perMilli false n).1 = _ := (ask_of_fits hcfg h hspent hfits n).1
        cases hanswer.symm.trans hdelay
        exact ⟨initial_le_planned hcfg ts.length, planned_le_max cfg ts.length⟩

end Timed

/-- **The schedule.**  The delay for which a schedule is asked after `k` others, since it began or
was reset, is the planned one if it ends by the mandatory stop; one that would not is what is left
up to the stop, but not less than the initial delay, and makes the stop.  From then on, or when
there were as many as may be, there is none, and nothing changes but by a reset, which begins the
schedule anew.  Before that a call breaks down iff the planned delay is to be doubled and no time is
that long, the clock cannot show the moment, or no time reaches from the first delay to the end of
this one. -/
theorem schedule_has_closed_form (cfg : Config) (hcfg : cfg.initial ≤ cfg.max)
    (perMilli start : Nat) (es : List Event) {s : Timed}
    (hs : (Timed.start cfg start).run? cfg perMilli false es = some s) (n : Nat) :
    let ts := asked start [] es
    let k := ts.length
    let e := sinceFirst ts s.now
    let call := s.ask? cfg perMilli false n
    (call = none ↔ k < cfg.maxAttempts ∧ ¬ Stopped cfg ts ∧
      (planned cfg k < cfg.max ∧ timeBound perMilli ≤ planned cfg k * 2 ∨
        clockBound perMilli ≤ s.now ∨ timeBound perMilli ≤ e + planned cfg k)) ∧
    (∀ answer, call = some answer →
      (k < cfg.maxAttempts → ¬ Stopped cfg ts → e + planned cfg k ≤ cfg.mandatoryStop →
        answer.1 = some (planned cfg k) ∧ answer.2.schedule.stopMade = false ∧
          answer.2.schedule.attempts = k + 1) ∧
      (k < cfg.maxAttempts → ¬ Stopped cfg ts → cfg.mandatoryStop < e + planned cfg k →
        answer.1 = some (Nat.max cfg.initial (cfg.mandatoryStop - e)) ∧
          answer.2.schedule.stopMade = true ∧ answer.2.schedule.attempts = k + 1) ∧
      (∀ delay, answer.1 = some delay → cfg.initial ≤ delay ∧ delay ≤ cfg.max)) ∧
    (Stopped cfg ts ∨ cfg.maxAttempts ≤ k → ∀ es', .reset ∉ es' →
      ∃ s', s.run? cfg perMilli false es' = some s' ∧
        s'.ask? cfg perMilli false n = some (none, s') ∧
        s'.schedule.attempts = s.schedule.attempts) ∧
    (s.schedule.stopMade = true ↔ Stopped cfg ts) ∧
    (s.step? cfg perMilli false .reset).map Timed.schedule = some (.start cfg) := by
  intro ts k e call
  have hstands : Stands cfg ts s.schedule := Timed.run_of_run? hs ▸
    Timed.stands_run (s := Timed.start cfg start) hcfg (stands_start hcfg) es
  have hlive : s.schedule.isSpent cfg = false ↔ k < cfg.maxAttempts ∧ ¬ Stopped cfg ts := by
    rw [← Bool.not_eq_true, hstands.spent, not_or, Nat.not_le, and_comm]
  refine ⟨?_, fun answer hanswer ↦ ?_, fun hdone es' hes' ↦ ?_, hstands.stopMade, rfl⟩
  · rw [Timed.ask?_eq_none, breaks_eq_true, ← and_assoc, ← hlive]
    refine and_congr_right fun hspent ↦ ?_
    rw [overflows_eq_true, hstands.upcoming_eq hspent, hstands.elapsed_eq hspent]
    simp only [Bool.false_eq_true, false_and, or_false]
    rfl
  · obtain ⟨-, rfl⟩ := Timed.ask?_eq_some.mp hanswer
    exact ⟨fun hleft hunstopped hfits ↦
        Timed.ask_of_fits hcfg hstands (hlive.mpr ⟨hleft, hunstopped⟩) hfits n,
      fun hleft hunstopped hlate ↦
        Timed.ask_of_overruns hstands (hlive.mpr ⟨hleft, hunstopped⟩) hlate n,
      fun delay hdelay ↦ Timed.ask_mem_range hcfg hstands hdelay⟩
  · have hspent := hstands.spent.mpr hdone
    obtain ⟨now, hrun⟩ := Timed.run?_of_spent hspent hes'
    exact ⟨_, hrun, Timed.ask?_of_spent hspent, rfl⟩

/-- The fourth delay is what is left up to the mandatory stop, and the last one. -/
theorem fourth_delay_is_fitted :
    let cfg : Config := ⟨100, 250, 700, 9⟩
    let es : List Event := [.ask 0, .elapse 100, .ask 0, .elapse 200, .ask 0, .elapse 250]
    let s : Timed := ⟨550, ⟨250, some 0, false, 3⟩⟩
    let answer : Option Nat × Timed := (some 150, ⟨550, ⟨250, some 0, true, 4⟩⟩)
    (Timed.start cfg 0).run? cfg 1 false es = some s ∧ asked 0 [] es = [0, 100, 300] ∧
      s.ask? cfg 1 false 0 = some answer ∧
      answer.1 = some (Nat.max cfg.initial (cfg.mandatoryStop - 550)) ∧
      answer.2.schedule.stopMade = true ∧ answer.2.schedule.attempts = 3 + 1 := by
  intro cfg es s answer
  have hrun : (Timed.start cfg 0).run? cfg 1 false es = some s := by decide
  have hanswer : s.ask? cfg 1 false 0 = some answer := by decide
  obtain ⟨-, hcalls, -⟩ := schedule_has_closed_form cfg (by decide) 1 0 es hrun 0
  obtain ⟨-, hfitted, -⟩ := hcalls answer hanswer
  exact ⟨hrun, by decide, hanswer, hfitted (by decide) (by decide) (by decide)⟩

/-- Two delays that are due and are not given: when the clock has been moved on too far, and when
the delay cannot be doubled. -/
theorem delay_is_lost_beyond_bounds :
    let short : Config := ⟨100, 1000, 10000, 5⟩
    let wide : Config := ⟨2 ^ 63 * 1000, 2 ^ 64 * 1000 - 1, 2 ^ 64 * 1000 - 1, 5⟩
    (∃ s : Timed, (Timed.start short 0).run? short 1 false ages = some s ∧
      (asked 0 [] ages).length < short.maxAttempts ∧ ¬ Stopped short (asked 0 [] ages) ∧
      s.ask? short 1 false 0 = none) ∧
    0 < wide.maxAttempts ∧ ¬ Stopped wide [] ∧ planned wide 0 ≤ wide.mandatoryStop ∧
      (Timed.start wide 0).ask? wide 1 false 0 = none := by
  refine ⟨⟨⟨1001 * (2 ^ 63 - 1), ⟨200, some 0, false, 1⟩⟩, ?_⟩, ?_⟩
  · decide +kernel
  · decide

end Backoff

end GroupOffsets
