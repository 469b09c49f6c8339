import Mathlib.Algebra.GroupWithZero.Nat
import Mathlib.Data.Option.Basic
import GroupOffsets.Config

/-!
# The retry schedule in use

A schedule is asked for delays while its clock goes on, and may begin anew in between.  Each time it
is spent, or gives a delay; which of them, and what becomes of it, has nothing to do with what is
cut off.  So a schedule with cuts and one without give their delays at the same calls, and stop at
the same one.

A call can also break down.  With cuts it does so where it does without them, and besides where a
delay is so long that the 64 bits that are kept of the number of its cuts are all zero.  Times that
are 64-bit numbers of milliseconds are too short for any of this: `Timed.run?_of_narrow`.
-/

namespace GroupOffsets

namespace Backoff

variable {cfg : Config} {b b' : Backoff} {draw : Option Nat} {now delay perMilli : Nat}

/-! ## One delay -/

/-- The schedule after a delay was given. -/
def following (cfg : Config) (b : Backoff) (now : Nat) : Backoff where
  upcoming := if b.upcoming < cfg.max then Nat.min (b.upcoming * 2) cfg.max else b.upcoming
  firstAt := some (b.firstAt.getD now)
  stopMade := b.overruns cfg now
  attempts := b.attempts + 1

theorem next_of_spent (h : b.isSpent cfg = true) : b.next cfg draw now perMilli = (none, b) := by
  rw [next, if_pos h]

theorem next_of_not_spent (h : b.isSpent cfg = false) : b.next cfg draw now perMilli =
    (some (Nat.max (b.fitted cfg now - cut draw (b.fitted cfg now) perMilli) cfg.initial),
      b.following cfg now) := by
  rw [next, if_neg (ne_true_of_eq_false h)]
  rfl

theorem isSpent_eq_true : b.isSpent cfg = true ↔
    b.stopMade = true ∨ cfg.maxAttempts ≤ b.attempts := by
  rw [isSpent, Bool.or_eq_true, decide_eq_true_iff]

theorem isSpent_eq_false : b.isSpent cfg = false ↔
    b.stopMade = false ∧ b.attempts < cfg.maxAttempts := by
  rw [isSpent, Bool.or_eq_false_iff, decide_eq_false_iff_not, Nat.not_le]

theorem overruns_eq_true : b.overruns cfg now = true ↔
    cfg.mandatoryStop < b.elapsed now + b.upcoming := decide_eq_true_iff

theorem overruns_eq_false : b.overruns cfg now = false ↔
    b.elapsed now + b.upcoming ≤ cfg.mandatoryStop := by
  rw [overruns, decide_eq_false_iff_not, Nat.not_lt]

theorem fitted_of_fits (h : b.overruns cfg now = false) : b.fitted cfg now = b.upcoming := by
  rw [fitted, if_neg (ne_true_of_eq_false h)]

theorem fitted_of_overruns (h : b.overruns cfg now = true) :
    b.fitted cfg now = Nat.max cfg.initial (cfg.mandatoryStop - b.elapsed now) := by
  rw [fitted, if_pos h]

theorem fitted_le (cfg : Config) (b : Backoff) (now : Nat) :
    b.fitted cfg now ≤ Nat.max cfg.initial cfg.mandatoryStop := by
  cases hover : b.overruns cfg now with
  | true =>
      rw [fitted_of_overruns hover]
      exact Nat.max_le.mpr
        ⟨Nat.le_max_left .., Nat.le_trans (Nat.sub_le ..) (Nat.le_max_right ..)⟩
  | false =>
      rw [fitted_of_fits hover]
      exact Nat.le_trans (Nat.le_of_add_left_le (overruns_eq_false.mp hover)) (Nat.le_max_right ..)

/-- A delay lies between the initial one and the one that is fitted to the mandatory stop. -/
theorem next_eq_some (h : b.next cfg draw now perMilli = (some delay, b')) :
    b.isSpent cfg = false ∧ b' = b.following cfg now ∧ cfg.initial ≤ delay ∧
      delay ≤ Nat.max (b.fitted cfg now) cfg.initial := by
  cases hspent : b.isSpent cfg with
  | true =>
      rw [next_of_spent hspent] at h
      cases h
  | false =>
      rw [next_of_not_spent hspent] at h
      cases h
      refine ⟨rfl, rfl, Nat.le_max_right .., Nat.max_le.mpr ⟨?_, Nat.le_max_right ..⟩⟩
      exact Nat.le_trans (Nat.sub_le ..) (Nat.le_max_left ..)

/-- No delay is given once none is left. -/
theorem next_eq_none (h : b.next cfg draw now perMilli = (none, b')) :
    b.isSpent cfg = true ∧ b' = b := by
  cases hspent : b.isSpent cfg with
  | true =>
      rw [next_of_spent hspent] at h
      cases h
      exact ⟨rfl, rfl⟩
  | false =>
      rw [next_of_not_spent hspent] at h
      cases h

/-- Where the delay that comes next can lie, before it is shortened or cut. -/
structure Ranges (cfg : Config) (b : Backoff) : Prop where
  initial_le : cfg.initial ≤ b.upcoming
  le_max : b.upcoming ≤ Nat.max cfg.initial cfg.max

theorem ranges_start (cfg : Config) : (start cfg).Ranges cfg :=
  ⟨Nat.le_refl _, Nat.le_max_left ..⟩

/-- Delays do not get shorter, and stay below their maximum. -/
theorem Ranges.following (h : b.Ranges cfg) (now : Nat) : (b.following cfg now).Ranges cfg := by
  obtain ⟨hinitial, hmax⟩ := h
  simp only [Backoff.following]
  constructor
  · split
    · rename_i hlt
      refine Nat.le_trans hinitial (Nat.le_min.mpr ⟨?_, Nat.le_of_lt hlt⟩)
      exact Nat.le_mul_of_pos_right _ Nat.two_pos
    · exact hinitial
  · split
    · exact Nat.le_trans (Nat.min_le_right ..) (Nat.le_max_right ..)
    · exact hmax

/-- A delay is no longer than the longest time of its configuration. -/
theorem Ranges.fitted_lt {time : Nat} (h : b.Ranges cfg) (hinitial : cfg.initial < time)
    (hmax : cfg.max < time) (hstop : cfg.mandatoryStop < time) (now : Nat) :
    b.fitted cfg now < time := by
  rw [fitted]
  split
  · exact Nat.max_lt.mpr ⟨hinitial, Nat.lt_of_le_of_lt (Nat.sub_le ..) hstop⟩
  · exact Nat.lt_of_le_of_lt h.le_max (Nat.max_lt.mpr ⟨hinitial, hmax⟩)

theorem Ranges.ends_of_fits (h : b.Ranges cfg) (hfits : b.overruns cfg now = false)
    (hle : delay ≤ Nat.max (b.fitted cfg now) cfg.initial) :
    b.elapsed now + delay ≤ cfg.mandatoryStop := by
  rw [fitted_of_fits hfits] at hle
  have hupcoming : delay ≤ b.upcoming :=
    Nat.le_trans hle (Nat.max_le.mpr ⟨Nat.le_refl _, h.initial_le⟩)
  exact Nat.le_trans (Nat.add_le_add_left hupcoming _) (overruns_eq_false.mp hfits)

/-- A delay ends by the mandatory stop, or is not longer than the initial one. -/
theorem Ranges.ends_or_le (h : b.Ranges cfg)
    (hle : delay ≤ Nat.max (b.fitted cfg now) cfg.initial) :
    b.elapsed now + delay ≤ cfg.mandatoryStop ∨ delay ≤ cfg.initial := by
  cases hover : b.overruns cfg now with
  | false => exact .inl (h.ends_of_fits hover hle)
  | true =>
      rw [fitted_of_overruns hover] at hle
      change delay ≤ max (max cfg.initial (cfg.mandatoryStop - b.elapsed now)) cfg.initial at hle
      omega

/-- The last delay, if nothing is cut off, does not end before the mandatory stop. -/
theorem stop_le_of_overruns (h : b.overruns cfg now = true) :
    cfg.mandatoryStop ≤ b.elapsed now + b.fitted cfg now := by
  rw [fitted_of_overruns h]
  refine Nat.le_trans ?_ (Nat.add_le_add_left (Nat.le_max_right ..) _)
  omega

/-! ## Cuts -/

/-- No cut takes more than a tenth. -/
theorem cut_le (draw : Option Nat) (delay perMilli : Nat) :
    cut draw delay perMilli ≤ delay / perMilli / 10 * perMilli := by
  cases draw with
  | none => exact Nat.zero_le _
  | some n =>
      simp only [cut]
      split
      · rename_i hdraws
        have hcuts : 0 < cuts delay perMilli := of_decide_eq_true (Bool.and_eq_true_iff.mp hdraws).2
        have hdrawn : n % cuts delay perMilli ≤ delay / perMilli / 10 :=
          Nat.le_trans (Nat.le_of_lt (Nat.mod_lt n hcuts)) (Nat.mod_le ..)
        exact Nat.mul_le_mul_right _ hdrawn
      · exact Nat.zero_le _

theorem cut_le_self (draw : Option Nat) (delay perMilli : Nat) :
    cut draw delay perMilli ≤ delay :=
  Nat.le_trans (cut_le draw delay perMilli)
    (Nat.le_trans (Nat.mul_le_mul_right _ (Nat.div_le_self ..)) (Nat.div_mul_le_self ..))

/-- A delay that is long enough to be cut has no cuts to draw from iff its tenth has none of the 64
bits that are kept. -/
theorem lacksCuts_eq_true : lacksCuts delay perMilli = true ↔
    isLong delay perMilli = true ∧ UInt64.size ∣ delay / perMilli / 10 := by
  rw [lacksCuts, Bool.and_eq_true, beq_iff_eq, cuts, Nat.dvd_iff_mod_eq_zero]

/-- What a cut may make of a delay. -/
structure Trims (cfg : Config) (perMilli delay trimmed : Nat) : Prop where
  initial_le : cfg.initial ≤ trimmed
  le : trimmed ≤ delay
  sub_le : delay - trimmed ≤ delay / perMilli / 10 * perMilli

/-- No delay is cut below the initial one. -/
theorem trims_cut (cfg : Config) (draw : Option Nat) (delay perMilli : Nat) :
    Trims cfg perMilli (Nat.max delay cfg.initial)
      (Nat.max (delay - cut draw delay perMilli) cfg.initial) := by
  have hcut : cut draw delay perMilli ≤ Nat.max delay cfg.initial / perMilli / 10 * perMilli :=
    Nat.le_trans (cut_le draw delay perMilli) (Nat.mul_le_mul_right _
      (Nat.div_le_div_right (Nat.div_le_div_right (Nat.le_max_left ..))))
  refine ⟨Nat.le_max_right .., ?_, Nat.le_trans ?_ hcut⟩
  · exact Nat.max_le.mpr
      ⟨Nat.le_trans (Nat.sub_le ..) (Nat.le_max_left ..), Nat.le_max_right ..⟩
  · refine Nat.sub_le_of_le_add (Nat.max_le.mpr ⟨?_, ?_⟩)
    · have hleft : delay - cut draw delay perMilli ≤
          Nat.max (delay - cut draw delay perMilli) cfg.initial := Nat.le_max_left ..
      omega
    · exact Nat.le_trans (Nat.le_max_right ..) (Nat.le_add_left ..)

/-! ## Calls that break down -/

theorem overflows_eq_true : b.overflows cfg now perMilli = true ↔
    b.upcoming < cfg.max ∧ timeBound perMilli ≤ b.upcoming * 2 ∨ clockBound perMilli ≤ now ∨
      timeBound perMilli ≤ b.elapsed now + b.upcoming := by
  simp only [overflows, Bool.or_eq_true, Bool.and_eq_true, decide_eq_true_iff, or_assoc]

theorem breaks_eq_true {drawing : Bool} : b.breaks cfg drawing now perMilli = true ↔
    b.isSpent cfg = false ∧ (b.overflows cfg now perMilli = true ∨
      drawing = true ∧ lacksCuts (b.fitted cfg now) perMilli = true) := by
  simp only [breaks, Bool.and_eq_true, Bool.or_eq_true, Bool.not_eq_true']

theorem breaks_of_spent {drawing : Bool} (h : b.isSpent cfg = true) :
    b.breaks cfg drawing now perMilli = false := by
  rw [breaks, h]
  rfl

/-- The times of a configuration are 64-bit numbers of milliseconds. -/
structure Config.Narrow (cfg : Config) (perMilli : Nat) : Prop where
  initial : cfg.initial < UInt64.size * perMilli
  max : cfg.max < UInt64.size * perMilli
  mandatoryStop : cfg.mandatoryStop < UInt64.size * perMilli

/-- The settings give only such times. -/
theorem narrow_retry (c : GroupOffsets.Config) : c.retry.Narrow 1 :=
  ⟨UInt64.toNat_lt _, UInt64.toNat_lt _, UInt64.toNat_lt _⟩

theorem Ranges.not_overflows (h : b.Ranges cfg) (hcfg : cfg.Narrow perMilli)
    (hnow : now < clockBound perMilli) : ¬ b.overflows cfg now perMilli = true := by
  have hupcoming : b.upcoming < UInt64.size * perMilli :=
    Nat.lt_of_le_of_lt h.le_max (Nat.max_lt.mpr ⟨hcfg.initial, hcfg.max⟩)
  have helapsed : b.elapsed now ≤ now := by
    rw [elapsed]
    split
    · exact Nat.sub_le ..
    · exact Nat.zero_le _
  rw [overflows_eq_true]
  unfold timeBound clockBound UInt64.size at *
  omega

/-- A delay within such times has cuts to draw from if it is long enough for it. -/
theorem Ranges.not_lacksCuts (h : b.Ranges cfg) (hcfg : cfg.Narrow perMilli) (now : Nat) :
    ¬ lacksCuts (b.fitted cfg now) perMilli = true := by
  rw [lacksCuts_eq_true]
  rintro ⟨hlong, hdvd⟩
  have hfitted := h.fitted_lt hcfg.initial hcfg.max hcfg.mandatoryStop now
  have hmilli : b.fitted cfg now / perMilli < UInt64.size :=
    Nat.div_lt_of_lt_mul (Nat.mul_comm .. ▸ hfitted)
  have htenth : 0 < b.fitted cfg now / perMilli / 10 :=
    Nat.div_pos (Nat.le_of_lt (decide_eq_true_iff.mp hlong)) (by decide)
  have hle := Nat.le_of_dvd htenth hdvd
  omega

/-- Within such times no call breaks down, as long as the clock can show the moment. -/
theorem Ranges.breaks_eq_false (h : b.Ranges cfg) (hcfg : cfg.Narrow perMilli)
    (hnow : now < clockBound perMilli) (drawing : Bool) :
    b.breaks cfg drawing now perMilli = false := by
  refine eq_false_of_ne_true fun hbreaks ↦ ?_
  rcases (breaks_eq_true.mp hbreaks).2 with hoverflows | ⟨-, hlacks⟩
  · exact h.not_overflows hcfg hnow hoverflows
  · exact h.not_lacksCuts hcfg now hlacks

theorem Ranges.next?_eq (h : b.Ranges cfg) (hcfg : cfg.Narrow perMilli)
    (hnow : now < clockBound perMilli) (draw : Option Nat) :
    b.next? cfg draw now perMilli = some (b.next cfg draw now perMilli) := by
  rw [next?, h.breaks_eq_false hcfg hnow, if_neg Bool.false_ne_true]

/-! ## Runs -/

/-- What a schedule in use goes through. -/
inductive Event where
  /-- A delay is asked for, with a random number at hand. -/
  | ask (draw : Nat)
  | elapse (time : Nat)
  | reset

/-- A schedule and its clock. -/
structure Timed where
  now : Nat
  schedule : Backoff
  deriving DecidableEq

namespace Timed

section

variable (cfg : Config) (perMilli : Nat) (cutting : Bool)

/-- A schedule that has not begun. -/
def start (now : Nat) : Timed := ⟨now, .start cfg⟩

variable (s : Timed)

/-- Asks for a delay. -/
def ask (draw : Nat) : Option Nat × Timed :=
  let (delay, schedule) := s.schedule.next cfg (if cutting then some draw else none) s.now perMilli
  (delay, { s with schedule })

def step : Event → Timed
  | .ask draw => (s.ask cfg perMilli cutting draw).2
  | .elapse time => { s with now := s.now + time }
  | .reset => { s with schedule := s.schedule.reset cfg }

/-- The schedule after a run of events, if no call breaks down. -/
def run (es : List Event) : Timed := es.foldl (step cfg perMilli cutting) s

/-- A call for a delay. -/
def ask? (draw : Nat) : Option (Option Nat × Timed) :=
  (s.schedule.next? cfg (if cutting then some draw else none) s.now perMilli).map
    fun (delay, schedule) ↦ (delay, { s with schedule })

def step? : Event → Option Timed
  | .ask draw => (s.ask? cfg perMilli cutting draw).map Prod.snd
  | e => some (s.step cfg perMilli cutting e)

/-- The schedule after a run of events, none of whose calls breaks down. -/
def run? (es : List Event) : Option Timed := es.foldlM (step? cfg perMilli cutting) s

end

variable {cutting : Bool} {s s' : Timed} {e : Event} {es : List Event} {n : Nat}

@[simp] theorem run_nil : s.run cfg perMilli cutting [] = s := rfl

@[simp] theorem run_cons : s.run cfg perMilli cutting (e :: es) =
    (s.step cfg perMilli cutting e).run cfg perMilli cutting es := rfl

theorem ask_of_spent (h : s.schedule.isSpent cfg = true) :
    s.ask cfg perMilli cutting n = (none, s) := by
  rw [ask, next_of_spent h]

theorem ask_of_not_spent (h : s.schedule.isSpent cfg = false) : s.ask cfg perMilli cutting n =
    (some (Nat.max (s.schedule.fitted cfg s.now - cut (if cutting then some n else none)
        (s.schedule.fitted cfg s.now) perMilli) cfg.initial),
      { s with schedule := s.schedule.following cfg s.now }) := by
  rw [ask, next_of_not_spent h]

/-- What every schedule has from its start, and keeps with each delay, it has all along. -/
theorem schedule_run {P : Backoff → Prop} (hstart : P (.start cfg))
    (hfollowing : ∀ b now, P b → P (b.following cfg now)) (h : P s.schedule) (es : List Event) :
    P (s.run cfg perMilli cutting es).schedule := by
  induction es generalizing s with
  | nil => exact h
  | cons e es ih =>
      refine ih ?_
      cases e with
      | ask n =>
          rw [step]
          cases hspent : s.schedule.isSpent cfg with
          | true => rwa [ask_of_spent hspent]
          | false =>
              rw [ask_of_not_spent hspent]
              exact hfollowing _ _ h
      | elapse => exact h
      | reset => exact hstart

/-! ## Runs that may break down -/

theorem ask?_eq : s.ask? cfg perMilli cutting n =
    if s.schedule.breaks cfg cutting s.now perMilli then none
    else some (s.ask cfg perMilli cutting n) := by
  have hdrawing : (if cutting then some n else none).isSome = cutting := by cases cutting <;> rfl
  rw [ask?, next?, hdrawing]
  split <;> rfl

theorem ask?_eq_none : s.ask? cfg perMilli cutting n = none ↔
    s.schedule.breaks cfg cutting s.now perMilli = true := by
  rw [ask?_eq, ite_eq_left_iff]
  simp only [reduceCtorEq, imp_false, Decidable.not_not]

theorem ask?_eq_some {a : Option Nat × Timed} : s.ask? cfg perMilli cutting n = some a ↔
    s.schedule.breaks cfg cutting s.now perMilli = false ∧
      a = s.ask cfg perMilli cutting n := by
  rw [ask?_eq, Option.ite_none_left_eq_some, Option.some.injEq, Bool.not_eq_true, eq_comm (b := a)]

theorem ask?_of_spent (h : s.schedule.isSpent cfg = true) :
    s.ask? cfg perMilli cutting n = some (none, s) :=
  ask?_eq_some.mpr ⟨breaks_of_spent h, (ask_of_spent h).symm⟩

theorem run?_cons : s.run? cfg perMilli cutting (e :: es) =
    (s.step? cfg perMilli cutting e).bind (run? cfg perMilli cutting · es) := rfl

theorem step_of_step? (h : s.step? cfg perMilli cutting e = some s') :
    s.step cfg perMilli cutting e = s' := by
  cases e with
  | ask n =>
      obtain ⟨a, ha, rfl⟩ := Option.map_eq_some_iff.mp h
      rw [(ask?_eq_some.mp ha).2, step]
  | elapse | reset => exact Option.some.inj h

/-- Where no call breaks down, the schedule is what its delays have made of it. -/
theorem run_of_run? (h : s.run? cfg perMilli cutting es = some s') :
    s.run cfg perMilli cutting es = s' := by
  induction es generalizing s with
  | nil => exact Option.some.inj h
  | cons e es ih =>
      obtain ⟨s₁, hstep, hrun⟩ := Option.bind_eq_some_iff.mp h
      rw [run_cons, step_of_step? hstep, ih hrun]

theorem now_le_run : s.now ≤ (s.run cfg perMilli cutting es).now := by
  induction es generalizing s with
  | nil => exact Nat.le_refl _
  | cons e es ih =>
      refine Nat.le_trans ?_ ih
      cases e with
      | ask | reset => exact Nat.le_refl _
      | elapse time => exact Nat.le_add_right ..

/-- Settings whose times are 64-bit numbers of milliseconds keep a schedule from breaking down, as
long as its clock can show the time. -/
theorem run?_of_narrow (hcfg : cfg.Narrow perMilli) (h : s.schedule.Ranges cfg)
    (hnow : (s.run cfg perMilli cutting es).now < clockBound perMilli) :
    s.run? cfg perMilli cutting es = some (s.run cfg perMilli cutting es) := by
  induction es generalizing s with
  | nil => rfl
  | cons e es ih =>
      have hranges : (s.step cfg perMilli cutting e).schedule.Ranges cfg :=
        schedule_run (ranges_start cfg) (fun _ now h ↦ h.following now) h [e]
      have hstep : s.step? cfg perMilli cutting e = some (s.step cfg perMilli cutting e) := by
        cases e with
        | ask n =>
            have hshown := h.breaks_eq_false hcfg (Nat.lt_of_le_of_lt now_le_run hnow) cutting
            rw [step?, ask?_eq_some.mpr ⟨hshown, rfl⟩]
            rfl
        | elapse | reset => rfl
      rw [run?_cons, hstep]
      exact ih hranges hnow

/-- Nothing that happens to a spent schedule renews it but a reset, and no call breaks down. -/
theorem run?_of_spent (h : s.schedule.isSpent cfg = true) (hes : .reset ∉ es) :
    ∃ now, s.run? cfg perMilli cutting es = some ⟨now, s.schedule⟩ := by
  induction es generalizing s with
  | nil => exact ⟨s.now, rfl⟩
  | cons e es ih =>
      have hes' : .reset ∉ es := fun hmem ↦ hes (List.mem_cons_of_mem _ hmem)
      cases e with
      | ask n =>
          rw [run?_cons, step?, ask?_of_spent h]
          exact ih h hes'
      | elapse time => exact ih (s := { s with now := s.now + time }) h hes'
      | reset => exact absurd List.mem_cons_self hes

/-! ## Runs with cuts and without -/

/-- Cuts have no part in what becomes of a schedule. -/
theorem step_cutting (cfg : Config) (perMilli : Nat) (s : Timed) (e : Event) :
    s.step cfg perMilli true e = s.step cfg perMilli false e := by
  cases e with
  | ask n =>
      simp only [step]
      cases hspent : s.schedule.isSpent cfg with
      | true => rw [ask_of_spent hspent, ask_of_spent hspent]
      | false => rw [ask_of_not_spent hspent, ask_of_not_spent hspent]
  | elapse | reset => rfl

/-- Where a call with cuts does not break down, the same one without them does not. -/
theorem step?_of_cutting (h : s.step? cfg perMilli true e = some s') :
    s.step? cfg perMilli false e = some s' := by
  have hsame := step_of_step? h
  rw [step_cutting] at hsame
  cases e with
  | ask n =>
      obtain ⟨a, ha, -⟩ := Option.map_eq_some_iff.mp h
      have hplain : s.schedule.breaks cfg false s.now perMilli = false := by
        refine eq_false_of_ne_true fun hbreaks ↦ ?_
        obtain ⟨hspent, hoverflows | ⟨hfalse, -⟩⟩ := breaks_eq_true.mp hbreaks
        · exact absurd (breaks_eq_true.mpr ⟨hspent, .inl hoverflows⟩)
            (ne_true_of_eq_false (ask?_eq_some.mp ha).1)
        · cases hfalse
      rw [step?, ask?_eq_some.mpr ⟨hplain, rfl⟩]
      exact congrArg some hsame
  | elapse | reset => exact congrArg some hsame

theorem run?_of_cutting (h : s.run? cfg perMilli true es = some s') :
    s.run? cfg perMilli false es = some s' := by
  induction es generalizing s with
  | nil => exact h
  | cons e es ih =>
      obtain ⟨s₁, hstep, hrun⟩ := Option.bind_eq_some_iff.mp h
      exact Option.bind_eq_some_iff.mpr ⟨s₁, step?_of_cutting hstep, ih hrun⟩

theorem rel_ask (cfg : Config) (perMilli : Nat) (s : Timed) (n : Nat) :
    Option.Rel (Trims cfg perMilli) (s.ask cfg perMilli false n).1
      (s.ask cfg perMilli true n).1 := by
  cases hspent : s.schedule.isSpent cfg with
  | true =>
      rw [ask_of_spent hspent, ask_of_spent hspent]
      exact .none
  | false =>
      rw [ask_of_not_spent hspent, ask_of_not_spent hspent]
      exact .some (trims_cut cfg (some n) _ perMilli)

end Timed

/-- **Cuts and the schedule.**  A schedule with cuts goes through the same as one without them, as
long as no call breaks down.  A call without cuts breaks down iff a bound is passed on the way to
the delay; one with cuts does so too, and besides iff the tenth of a delay that is long enough to be
cut has none of the 64 bits that are kept.  Otherwise both give a delay or neither does, with the
same schedule afterwards: the one with cuts is by a tenth shorter at most and never shorter than the
initial one, it is drawn from something, and what is cut off is there. -/
theorem cuts_keep_schedule (cfg : Config) (perMilli now : Nat) (es : List Event) {s : Timed}
    (hs : (Timed.start cfg now).run? cfg perMilli true es = some s) (draw : Nat) :
    let plain := s.ask? cfg perMilli false draw
    let cutting := s.ask? cfg perMilli true draw
    let delay := s.schedule.fitted cfg s.now
    (Timed.start cfg now).run? cfg perMilli false es = some s ∧
    (plain = none ↔
      s.schedule.isSpent cfg = false ∧ s.schedule.overflows cfg s.now perMilli = true) ∧
    (cutting = none ↔ plain = none ∨ s.schedule.isSpent cfg = false ∧
      isLong delay perMilli = true ∧ UInt64.size ∣ delay / perMilli / 10) ∧
    (∀ a a', plain = some a → cutting = some a' →
      a'.2 = a.2 ∧ Option.Rel (Trims cfg perMilli) a.1 a'.1 ∧
      (a'.1.isSome = true → isLong delay perMilli = true → 0 < cuts delay perMilli) ∧
      cut (some draw) delay perMilli ≤ delay) := by
  intro plain cutting delay
  have hplain : plain = none ↔
      s.schedule.isSpent cfg = false ∧ s.schedule.overflows cfg s.now perMilli = true := by
    rw [Timed.ask?_eq_none, breaks_eq_true]
    simp only [Bool.false_eq_true, false_and, or_false]
  have hcutting : cutting = none ↔ plain = none ∨ s.schedule.isSpent cfg = false ∧
      isLong delay perMilli = true ∧ UInt64.size ∣ delay / perMilli / 10 := by
    rw [hplain, Timed.ask?_eq_none, breaks_eq_true, lacksCuts_eq_true, and_or_left]
    simp only [true_and, delay]
  refine ⟨Timed.run?_of_cutting hs, hplain, hcutting, fun a a' ha ha' ↦ ?_⟩
  obtain ⟨hunbroken, rfl⟩ := Timed.ask?_eq_some.mp ha'
  obtain ⟨-, rfl⟩ := Timed.ask?_eq_some.mp ha
  refine ⟨Timed.step_cutting cfg perMilli s (.ask draw), Timed.rel_ask cfg perMilli s draw,
    fun hgiven hlong ↦ Nat.pos_of_ne_zero fun hzero ↦ ?_, cut_le_self ..⟩
  have hlive : s.schedule.isSpent cfg = false := by
    refine eq_false_of_ne_true fun hspent ↦ ?_
    rw [Timed.ask_of_spent hspent] at hgiven
    cases hgiven
  have hlacks : lacksCuts delay perMilli = true := by rw [lacksCuts, hlong, hzero]; rfl
  exact absurd (breaks_eq_true.mpr ⟨hlive, .inr ⟨rfl, hlacks⟩⟩) (ne_true_of_eq_false hunbroken)

/-- By default the second delay takes 200 milliseconds, from which any number below 20 can be
drawn. -/
theorem second_delay_is_trimmed :
    let cfg := Config.standard
    let s : Timed := ⟨100, ⟨200, some 0, false, 1⟩⟩
    let s' : Timed := ⟨100, ⟨400, some 0, false, 2⟩⟩
    (Timed.start cfg 0).run? cfg 1 true [.ask 0, .elapse 100] = some s ∧
      s.ask? cfg 1 false 7 = some (some 200, s') ∧ s.ask? cfg 1 true 7 = some (some 193, s') ∧
      Trims cfg 1 200 193 ∧ 0 < cuts 200 := by
  intro cfg s s'
  have hrun : (Timed.start cfg 0).run? cfg 1 true [.ask 0, .elapse 100] = some s := by decide
  have hplain : s.ask? cfg 1 false 7 = some (some 200, s') := by decide
  have hcutting : s.ask? cfg 1 true 7 = some (some 193, s') := by decide
  obtain ⟨-, -, -, hcalls⟩ := cuts_keep_schedule cfg 1 0 [.ask 0, .elapse 100] hrun 7
  obtain ⟨-, htrims, hcuts, -⟩ := hcalls _ _ hplain hcutting
  refine ⟨hrun, hplain, hcutting, ?_, hcuts rfl (by decide)⟩
  cases htrims with
  | some htrims => exact htrims

/-- A delay is asked for, and the clock is moved on further than it can show. -/
def ages : List Event := .ask 0 :: List.replicate 1001 (.elapse (2 ^ 63 - 1))

/-- A delay of ten times `2 ^ 64` milliseconds is given without cuts, and with cuts there is nothing
to draw from.  When the clock has been moved on too far, a schedule that has delays left gives none,
with cuts or without. -/
theorem cuts_lack_where_delay_is_long :
    let long : Config := ⟨10 * 2 ^ 64, 10 * 2 ^ 64, 10 * 2 ^ 64, 1⟩
    let short : Config := ⟨200, 800, 20000, 3⟩
    ((Timed.start long 0).ask? long 1 false 0).map Prod.fst = some (some (10 * 2 ^ 64)) ∧
    (Timed.start long 0).ask? long 1 true 0 = none ∧
    ∃ s : Timed, (Timed.start short 0).run? short 1 true ages = some s ∧
      s.schedule.isSpent short = false ∧ s.ask? short 1 false 0 = none ∧
      s.ask? short 1 true 0 = none :=
  ⟨by decide, by decide, ⟨1001 * (2 ^ 63 - 1), ⟨400, some 0, false, 1⟩⟩, by decide +kernel⟩

end Backoff

end GroupOffsets
