import GroupOffsets.Proofs.Backoff

/-!
# The time that a schedule takes

Whoever waits for each delay before asking for the next one waits no longer, all in all, than up to
the mandatory stop and for one initial delay more.  What carries the bound is that the time since
the first delay is never less than what the delays add up to.
-/

namespace GroupOffsets

namespace Backoff

/-- What delays add up to. -/
def total (delays : List (Nat × Nat)) : Nat := (delays.map Prod.snd).sum

@[simp] theorem total_nil : total [] = 0 := rfl

@[simp] theorem total_concat (delays : List (Nat × Nat)) (t delay : Nat) :
    total (delays ++ [(t, delay)]) = total delays + delay := by
  simp [total]

namespace Timed

section

variable (cfg : Config) (perMilli : Nat) (cutting : Bool)

/-- The delays that are given, after those of `before`, since the last reset: when, and how long
each is. -/
def given (s : Timed) (before : List (Nat × Nat)) : List Event → List (Nat × Nat)
  | [] => before
  | .ask n :: es =>
    let answer := s.ask cfg perMilli cutting n
    given answer.2 (before ++ (answer.1.map fun d ↦ (s.now, d)).toList) es
  | .elapse time :: es => given { s with now := s.now + time } before es
  | .reset :: es => given { s with schedule := s.schedule.reset cfg } [] es

/-- No delay is asked for until `ready`, when the one before it is over. -/
def Heeds (s : Timed) (ready : Nat) : List Event → Prop
  | [] => True
  | .ask n :: es =>
    let answer := s.ask cfg perMilli cutting n
    ready ≤ s.now ∧ Heeds answer.2 (s.now + answer.1.getD 0) es
  | .elapse time :: es => Heeds { s with now := s.now + time } ready es
  | .reset :: es => Heeds { s with schedule := s.schedule.reset cfg } 0 es

end

instance decidableHeeds (cfg : Config) (perMilli : Nat) (cutting : Bool) :
    (s : Timed) → (ready : Nat) → (es : List Event) →
      Decidable (s.Heeds cfg perMilli cutting ready es)
  | _, _, [] => isTrue trivial
  | s, ready, .ask n :: es =>
    have := decidableHeeds cfg perMilli cutting (s.ask cfg perMilli cutting n).2
      (s.now + (s.ask cfg perMilli cutting n).1.getD 0) es
    decidable_of_iff (ready ≤ s.now ∧ Heeds cfg perMilli cutting (s.ask cfg perMilli cutting n).2
      (s.now + (s.ask cfg perMilli cutting n).1.getD 0) es) Iff.rfl
  | s, ready, .elapse time :: es =>
    decidableHeeds cfg perMilli cutting { s with now := s.now + time } ready es
  | s, _, .reset :: es =>
    decidableHeeds cfg perMilli cutting { s with schedule := s.schedule.reset cfg } 0 es

variable {cfg : Config} {perMilli ready n : Nat} {cutting : Bool} {s : Timed}
  {delays : List (Nat × Nat)} {es : List Event}

/-- A schedule that has given some delays, the last of which is over when `ready` is reached. -/
structure Spends (cfg : Config) (cutting : Bool) (s : Timed) (ready : Nat)
    (delays : List (Nat × Nat)) : Prop where
  ranges : s.schedule.Ranges cfg
  firstAt : s.schedule.firstAt = delays.head?.map Prod.fst
  slept : ∀ t, s.schedule.firstAt = some t → t + total delays ≤ ready
  within : s.schedule.stopMade = false → total delays ≤ cfg.mandatoryStop
  beyond : total delays ≤ cfg.mandatoryStop + cfg.initial
  stop : cutting = false → s.schedule.stopMade = true → ∃ first last,
    delays.head? = some first ∧ delays.getLast? = some last ∧
      first.1 + cfg.mandatoryStop ≤ last.1 + last.2

theorem spends_start (cfg : Config) (cutting : Bool) (now ready : Nat) :
    (start cfg now).Spends cfg cutting ready [] where
  ranges := ranges_start cfg
  firstAt := rfl
  slept t ht := by cases ht
  within _ := Nat.zero_le _
  beyond := Nat.zero_le _
  stop _ hstop := by cases hstop

/-- The time since the first delay covers all that were given. -/
theorem Spends.total_le (h : s.Spends cfg cutting ready delays) (hready : ready ≤ s.now) :
    total delays ≤ s.schedule.elapsed s.now ∧
      s.schedule.firstAt.getD s.now + s.schedule.elapsed s.now = s.now := by
  rw [Backoff.elapsed]
  cases hfirst : s.schedule.firstAt with
  | none =>
      have hnil : delays = [] := by
        rw [h.firstAt, Option.map_eq_none_iff, List.head?_eq_none_iff] at hfirst
        exact hfirst
      simp [hnil]
  | some t =>
      have hslept := h.slept t hfirst
      simp only [Option.getD_some]
      omega

theorem Spends.spent (h : s.Spends cfg cutting ready delays) (hready : ready ≤ s.now) :
    s.Spends cfg cutting s.now delays :=
  ⟨h.ranges, h.firstAt, fun t ht ↦ Nat.le_trans (h.slept t ht) hready, h.within, h.beyond, h.stop⟩

/-- A delay that is given is accounted for. -/
theorem Spends.following {delay : Nat} (h : s.Spends cfg cutting ready delays)
    (hready : ready ≤ s.now) (hspent : s.schedule.isSpent cfg = false)
    (hle : delay ≤ Nat.max (s.schedule.fitted cfg s.now) cfg.initial)
    (hge : cutting = false → s.schedule.fitted cfg s.now ≤ delay) :
    ({ s with schedule := s.schedule.following cfg s.now } : Timed).Spends cfg cutting
      (s.now + delay) (delays ++ [(s.now, delay)]) := by
  obtain ⟨htotal, hnow⟩ := h.total_le hready
  have hwithin := h.within (isSpent_eq_false.mp hspent).1
  have hfirst : (delays ++ [(s.now, delay)]).head? =
      some (delays.head?.getD (s.now, delay)) := by
    cases delays <;> rfl
  have hat : (s.schedule.firstAt.getD s.now) = (delays.head?.getD (s.now, delay)).1 := by
    rw [h.firstAt]
    cases delays <;> rfl
  refine ⟨h.ranges.following s.now, ?_, fun t ht ↦ ?_, fun hgoes ↦ ?_, ?_, fun hplain hstop ↦ ?_⟩
  · rw [Backoff.following, hfirst, hat]
    rfl
  · cases ht
    rw [total_concat]
    omega
  · have hends := h.ranges.ends_of_fits hgoes hle
    rw [total_concat]
    omega
  · rw [total_concat]
    rcases h.ranges.ends_or_le hle with hends | hinitial <;> omega
  · have hends := stop_le_of_overruns hstop
    refine ⟨_, _, hfirst, List.getLast?_concat, ?_⟩
    have hdelay := hge hplain
    rw [← hat]
    dsimp only
    omega

theorem Spends.ask (h : s.Spends cfg cutting ready delays) (hready : ready ≤ s.now) (n : Nat) :
    (s.ask cfg perMilli cutting n).2.Spends cfg cutting
      (s.now + (s.ask cfg perMilli cutting n).1.getD 0)
      (delays ++ ((s.ask cfg perMilli cutting n).1.map fun d ↦ (s.now, d)).toList) := by
  cases hspent : s.schedule.isSpent cfg with
  | true =>
      rw [Timed.ask_of_spent hspent]
      simpa using h.spent hready
  | false =>
      rw [Timed.ask_of_not_spent hspent]
      have htrims := trims_cut cfg (if cutting then some n else none)
        (s.schedule.fitted cfg s.now) perMilli
      refine h.following hready hspent htrims.le fun hplain ↦ ?_
      rw [hplain]
      exact Nat.le_max_left ..

/-- Along a run in which every delay is waited for, the delays are accounted for. -/
theorem Spends.run (h : s.Spends cfg cutting ready delays)
    (hes : s.Heeds cfg perMilli cutting ready es) :
    ∃ ready', (s.run cfg perMilli cutting es).Spends cfg cutting ready'
      (s.given cfg perMilli cutting delays es) := by
  induction es generalizing s ready delays with
  | nil => exact ⟨ready, h⟩
  | cons e es ih =>
      cases e with
      | ask n => exact ih (h.ask hes.1 n) hes.2
      | elapse time =>
          exact ih (s := { s with now := s.now + time })
            ⟨h.ranges, h.firstAt, h.slept, h.within, h.beyond, h.stop⟩ hes
      | reset => exact ih (spends_start cfg cutting s.now 0) hes

end Timed

/-- If every delay is waited for, the delays since the last reset add up to no more than the
mandatory stop and the initial delay.  Unless the last one was made for the mandatory stop, they add
up to no more than that; if it was, and nothing is cut off, it does not end before the mandatory
stop, counted from the first. -/
theorem delays_keep_budget (cfg : Config) (perMilli start : Nat) (cutting : Bool)
    (es : List Event) (h : (Timed.start cfg start).Heeds cfg perMilli cutting 0 es) :
    let s := (Timed.start cfg start).run cfg perMilli cutting es
    let delays := (Timed.start cfg start).given cfg perMilli cutting [] es
    total delays ≤ cfg.mandatoryStop + cfg.initial ∧
    (s.schedule.stopMade = false → total delays ≤ cfg.mandatoryStop) ∧
    (cutting = false → s.schedule.stopMade = true → ∃ first last,
      delays.head? = some first ∧ delays.getLast? = some last ∧
        first.1 + cfg.mandatoryStop ≤ last.1 + last.2) := by
  intro s delays
  obtain ⟨ready, hspends⟩ := (Timed.spends_start cfg cutting start 0).run h
  exact ⟨hspends.beyond, hspends.within, hspends.stop⟩

/-- Every delay is waited for, and the last one begins right before the mandatory stop. -/
def waitsEach : List Event :=
  [.ask 0, .elapse 100, .ask 0, .elapse 200, .ask 0, .elapse 300, .ask 0, .elapse 300, .ask 0]

/-- The delays take longer than up to the mandatory stop, but not by more than the initial one. -/
theorem budget_of_five_delays :
    (Timed.start ⟨100, 300, 950, 9⟩ 0).given ⟨100, 300, 950, 9⟩ 1 false [] waitsEach =
      [(0, 100), (100, 200), (300, 300), (600, 300), (900, 100)] ∧
    total ((Timed.start ⟨100, 300, 950, 9⟩ 0).given ⟨100, 300, 950, 9⟩ 1 false [] waitsEach) ≤
      950 + 100 :=
  ⟨by decide, (delays_keep_budget ⟨100, 300, 950, 9⟩ 1 0 false waitsEach (by decide)).1⟩

end Backoff

end GroupOffsets
