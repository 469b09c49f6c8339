import GroupOffsets.Proofs.Resolution.Course

/-!
# Resolutions end

A resolution waits for an answer, or until a delay is over, and for neither longer than the initial
delay or up to the mandatory stop, whichever is later.  So every time that it is run after so long
it goes on, and each delay brings it closer to the end of the schedule.
-/

namespace GroupOffsets

open World (Choice Event Task)

namespace Flight

variable {cfg : Backoff.Config} {now now' clock clock' : Nat} {f : Flight}

/-- How long a resolution waits at most, from one place to the next. -/
def longestWait (cfg : Backoff.Config) : Nat := Nat.max cfg.initial cfg.mandatoryStop

/-- How many steps a resolution takes at most that do not wait. -/
def rank (cfg : Backoff.Config) (f : Flight) : Nat :=
  match f.phase with
  | .boarding => 2 * cfg.maxAttempts + 2
  | .locating .. => 2 * (cfg.maxAttempts - f.backoff.attempts) + 1
  | .pausing _ => 2 * (cfg.maxAttempts - f.backoff.attempts) + 2

/-- A resolution that does not wait too long. -/
structure Timely (cfg : Backoff.Config) (now clock : Nat) (f : Flight) : Prop where
  timer : ∀ t, f.timer = some t → t ≤ now + longestWait cfg
  deadline : f.phase ≠ .boarding → f.deadline ≤ clock + cfg.mandatoryStop

theorem Timely.mono (h : f.Timely cfg now clock) (hnow : now ≤ now') (hclock : clock ≤ clock') :
    f.Timely cfg now' clock' :=
  ⟨fun t ht ↦ Nat.le_trans (h.timer t ht) (Nat.add_le_add_right hnow _),
    fun hphase ↦ Nat.le_trans (h.deadline hphase) (Nat.add_le_add_right hclock _)⟩

theorem rank_pos : 0 < f.rank cfg := by
  rw [rank]
  split <;> exact Nat.succ_pos _

/-- A lookup that begins before the deadline is waited for up to it, and else for the initial
delay. -/
theorem budget_le (h : f.deadline ≤ clock + cfg.mandatoryStop) :
    f.budget cfg clock ≤ longestWait cfg :=
  Nat.max_le.mpr ⟨Nat.le_trans (Nat.sub_le_of_le_add (Nat.add_comm .. ▸ h)) (Nat.le_max_right ..),
    Nat.le_max_left ..⟩

/-- A resolution has to wait until its timer is over. -/
theorem isBlocked_iff : f.isBlocked now = true ↔ ∃ t, f.timer = some t ∧ now < t := by
  rw [isBlocked.eq_def, Flight.timer.eq_def]
  split
  · simp
  · simp only [Bool.and_eq_true, decide_eq_true_eq, Option.some.injEq, exists_eq_left', Nat.lt_min]
  · simp

/-- After the longest wait a resolution goes on. -/
theorem Timely.not_isBlocked (h : f.Timely cfg now clock) (hnow : now + longestWait cfg ≤ now') :
    ¬ f.isBlocked now' = true := by
  rw [isBlocked_iff]
  rintro ⟨t, ht, hlt⟩
  exact absurd (Nat.le_trans (h.timer t ht) hnow) (Nat.not_le.mpr hlt)

end Flight

namespace Bridge

variable {b b' : Bridge} {draw : Option Nat} {now now' n k : Nat} {f f₁ : Flight}
  {l : Option Lookup} {cfg : Backoff.Config}

/-- A resolution has landed, or takes no more steps than `k` that do not wait. -/
inductive Nears (cfg : Backoff.Config) (b : Bridge) (now n k : Nat) : Prop
  | aloft {f : Flight} (aloft : b.aloft[n]? = some f) (timely : f.Timely cfg now (b.clock now))
      (rank : f.rank cfg ≤ k) : Nears cfg b now n k
  | landed {o : Option Resolution} (outcome : b.flights.outcome? n = some o) : Nears cfg b now n k

theorem Nears.mono {k' : Nat} (h : Nears cfg b now n k) (hk : k ≤ k') : Nears cfg b now n k' := by
  cases h with
  | aloft aloft timely rank => exact .aloft aloft timely (Nat.le_trans rank hk)
  | landed outcome => exact .landed outcome

theorem Nears.congr (h : Nears cfg b now n k) (haloft : b'.aloft[n]? = b.aloft[n]?)
    (houtcome : b'.flights.outcome? n = b.flights.outcome? n) (hnow : now ≤ now')
    (hclock : b.clock now ≤ b'.clock now') : Nears cfg b' now' n k := by
  cases h with
  | aloft aloft timely rank => exact .aloft (haloft.trans aloft) (timely.mono hnow hclock) rank
  | landed outcome => exact .landed (houtcome.trans outcome)

/-- The delay that the schedule grants is one less that is left. -/
theorem Judges.nears (hj : Judges b draw now n f l b') (hb : b.Aboard)
    (haloft : (b.aloft[n]?).isSome) (hcfg : b.settings.retry = cfg)
    (hdeadline : f.deadline ≤ b.clock now + cfg.mandatoryStop)
    (hclock : b'.clock now = b.clock now) :
    Nears cfg b' now n (2 * (cfg.maxAttempts - f.backoff.attempts)) := by
  cases hj with
  | lands settles flights aloft => exact .landed (hb.outcome?_of_finish haloft flights)
  | @pauses delay backoff transient granted flights aloft =>
      rw [hcfg] at granted
      obtain ⟨hleft, hattempts, hdelay⟩ := Flight.of_next_eq_some granted
      have hpausing : b'.aloft[n]? = some { f with backoff, phase := .pausing (now + delay) } := by
        rw [aloft]
        exact Std.ExtTreeMap.getElem?_insert_self
      refine .aloft hpausing ⟨fun t ht ↦ ?_, fun _ ↦ hclock ▸ hdeadline⟩ ?_
      · cases ht
        exact Nat.add_le_add_left hdelay now
      · simp only [Flight.rank, hattempts]
        omega

theorem SetsOut.timely (hout : SetsOut b now f f₁) (hcfg : b.settings.retry = cfg)
    (h : f.Timely cfg now (b.clock now)) : f₁.deadline ≤ b.clock now + cfg.mandatoryStop ∧
      2 * (cfg.maxAttempts - f₁.backoff.attempts) + 2 = f.rank cfg := by
  cases hout with
  | departs boarding =>
      subst hcfg
      exact ⟨Nat.le_refl _, by simp only [Flight.rank, boarding]; rfl⟩
  | resumes pausing slept =>
      exact ⟨h.deadline (by simp [pausing]), by simp only [Flight.rank, pausing]⟩

/-- A step brings a resolution closer to its end, unless it has to wait. -/
theorem nears_stepFlight (hf : b.aloft[n]? = some f) (h : f.Timely cfg now (b.clock now))
    (hrank : f.rank cfg ≤ k + 1) (hb : b.Aboard) (hcfg : b.settings.retry = cfg)
    (draw : Option Nat) : f.isBlocked now = true ∧ b.stepFlight draw now n = b ∨
      Nears cfg (b.stepFlight draw now n) now n k := by
  have hsome : (b.aloft[n]?).isSome := Option.isSome_iff_exists.mpr ⟨f, hf⟩
  have hclock : (b.stepFlight draw now n).clock now = b.clock now := by
    obtain ⟨_, _, _, _, _, _, _, heq⟩ := b.stepFlight_eq now n draw
    rw [heq]
    rfl
  have hproceeds := proceeds_stepFlight draw now hf
  generalize b.stepFlight draw now n = b' at hproceeds hclock
  generalize b.logged draw now n f = more at hproceeds
  cases hproceeds with
  | waits blocked same => exact .inl ⟨blocked, same⟩
  | meets boarding flights aloft => exact .inr (.landed (hb.outcome?_of_finish hsome flights))
  | @locates f₁ sets_out flights aloft =>
      obtain ⟨hdeadline, hleft⟩ := sets_out.timely hcfg h
      refine .inr (.aloft (aloft ▸ Std.ExtTreeMap.getElem?_insert_self)
        ⟨fun t ht ↦ ?_, fun _ ↦ hclock ▸ hdeadline⟩ ?_)
      · cases ht
        rw [hcfg]
        exact Nat.le_trans (Nat.min_le_right ..)
          (Nat.add_le_add_left (Flight.budget_le hdeadline) now)
      · simp only [Flight.rank]
        omega
  | tries sets_out judges =>
      obtain ⟨hdeadline, hleft⟩ := sets_out.timely hcfg h
      exact .inr ((judges.nears hb hsome hcfg hdeadline hclock).mono (by omega))
  | answers locating judges =>
      have hdeadline := h.deadline (by simp [locating])
      have hleft : 2 * (cfg.maxAttempts - f.backoff.attempts) + 1 = f.rank cfg := by
        simp only [Flight.rank, locating]
      exact .inr ((judges.nears hb hsome hcfg hdeadline hclock).mono (by omega))

/-- The clock of the schedules is only moved on by hand. -/
theorem manualClock_operate (b : Bridge) (op : Operation) :
    ∃ ms, (b.operate op).2.manualClock = b.manualClock.map (· + ms) := by
  have hsame : ∀ {b' : Bridge}, b'.manualClock = b.manualClock →
      ∃ ms, b'.manualClock = b.manualClock.map (· + ms) :=
    fun h ↦ ⟨0, h.trans Option.map_id'.symm⟩
  cases op with
  | advanceClock ms => exact ⟨ms, rfl⟩
  | register tp =>
      simp only [operate]
      split <;> exact hsame rfl
  | setRange | append | roll | trim | openCursor | resetCursor =>
      simp only [operate, onPartition]
      split <;> exact hsame rfl
  | range | cursor | cursors =>
      simp only [operate, atPartition]
      split <;> exact hsame rfl
  | _ => exact hsame rfl

end Bridge

namespace World

variable {w : World} {ch : Choice} {e : Event} {es : List (Choice × Event)} {n k ms : Nat}
  {cfg : Backoff.Config} {f : Flight} {τ : Task}

theorem manualClock_step (w : World) (ch : Choice) (e : Event) :
    ∃ ms, (w.step ch e).bridge.manualClock = w.bridge.manualClock.map (· + ms) := by
  have hmove : Move w ch (w.step ch e) e := move_step e
  generalize w.step ch e = w' at hmove ⊢
  have hsame : w'.bridge.manualClock = w.bridge.manualClock →
      ∃ ms, w'.bridge.manualClock = w.bridge.manualClock.map (· + ms) :=
    fun h ↦ ⟨0, h.trans Option.map_id'.symm⟩
  cases hmove with
  | @operates op bridge calls =>
      rw [bridge]
      exact w.bridge.manualClock_operate op
  | @flies m bridge calls =>
      obtain ⟨_, _, _, _, _, _, _, hb⟩ := w.bridge.stepFlight_eq w.now m ch.draw
      exact hsame (by rw [bridge, hb])
  | @goes τ c was bridge self others =>
      obtain ⟨_, _, _, _, _, _, hb⟩ := w.bridge.stepCall_eq ch.order w.now c
      exact hsame (by rw [bridge, hb])
  | @cancels m c was bridge self others =>
      obtain ⟨_, hb⟩ := w.bridge.cancelCall_eq c
      exact hsame (by rw [bridge, hb])
  | begins bridge self others => exact hsame (by rw [bridge])
  | idles bridge calls => exact hsame (by rw [bridge])

/-- The clock of the schedules does not go back. -/
theorem clock_le_step (w : World) (ch : Choice) (e : Event) :
    w.bridge.clock w.now ≤ (w.step ch e).bridge.clock (w.step ch e).now := by
  obtain ⟨ms, hclock⟩ := manualClock_step w ch e
  rw [Bridge.clock, Bridge.clock, hclock]
  cases w.bridge.manualClock with
  | some t => exact Nat.le_add_right t ms
  | none => exact now_le_step w ch e

/-! ## Runs -/

/-- Nothing takes a resolution further from its end. -/
theorem nears_step (h : w.bridge.Nears cfg w.now n k) (hw : w.Begun cfg n) (ch : Choice)
    (e : Event) : (w.step ch e).bridge.Nears cfg (w.step ch e).now n k := by
  by_cases he : e = .step (.flight n)
  · subst he
    cases h with
    | aloft aloft timely rank =>
        obtain ⟨-, hb⟩ | hnears := Bridge.nears_stepFlight aloft timely (Nat.le_succ_of_le rank)
          hw.aboard.bridge hw.retry ch.draw
        · have hsame : w.step ch (.step (.flight n)) = w := by rw [step, run, hb]
          rw [hsame]
          exact .aloft aloft timely rank
        · exact hnears
    | landed outcome => exact .landed (outcome?_step hw.aboard ch _ outcome)
  · obtain ⟨haloft, houtcome⟩ := unmoved_step hw.old he
    exact h.congr haloft houtcome (now_le_step w ch e) (clock_le_step w ch e)

theorem nears_steps (h : w.bridge.Nears cfg w.now n k) (hw : w.Begun cfg n)
    (es : List (Choice × Event)) : (w.steps es).bridge.Nears cfg (w.steps es).now n k := by
  induction es generalizing w with
  | nil => exact h
  | cons e es ih => exact ih (nears_step h hw e.1 e.2) (hw.step e.1 e.2)

/-- What a run keeps it keeps to its end, unless it comes to something else that it keeps. -/
theorem steps_or {P Q : World → Prop} (hP : ∀ w ch e, (ch, e) ∈ es → P w → P (w.step ch e))
    (hQ : ∀ w ch e, (ch, e) ∈ es → Q w → P (w.step ch e) ∨ Q (w.step ch e)) (h : P w ∨ Q w) :
    P (w.steps es) ∨ Q (w.steps es) := by
  induction es generalizing w with
  | nil => exact h
  | cons e es ih =>
      refine ih (fun w ch e he ↦ hP w ch e (List.mem_cons_of_mem _ he))
        (fun w ch e he ↦ hQ w ch e (List.mem_cons_of_mem _ he)) ?_
      rcases h with h | h
      · exact .inl (hP w e.1 e.2 List.mem_cons_self h)
      · exact hQ w e.1 e.2 List.mem_cons_self h

/-- As long as a resolution gets no closer to its end, it stands where it stood. -/
theorem nears_or_same (hf : w.bridge.aloft[n]? = some f)
    (htimely : f.Timely cfg w.now (w.bridge.clock w.now)) (hrank : f.rank cfg ≤ k + 1)
    (hw : w.Begun cfg n) (es : List (Choice × Event)) :
    (w.steps es).bridge.Nears cfg (w.steps es).now n k ∨ (w.steps es).bridge.aloft[n]? = some f ∧
      f.Timely cfg (w.steps es).now ((w.steps es).bridge.clock (w.steps es).now) := by
  refine (steps_or (P := fun w ↦ w.Begun cfg n ∧ w.bridge.Nears cfg w.now n k)
    (Q := fun w ↦ w.Begun cfg n ∧ w.bridge.aloft[n]? = some f ∧
      f.Timely cfg w.now (w.bridge.clock w.now)) ?_ ?_ (.inr ⟨hw, hf, htimely⟩)).imp
    And.right And.right
  · rintro w ch e - ⟨hw, hnears⟩
    exact ⟨hw.step ch e, nears_step hnears hw ch e⟩
  · rintro w ch e - ⟨hw, hf, htimely⟩
    by_cases he : e = .step (.flight n)
    · subst he
      obtain ⟨-, hb⟩ | hnears := Bridge.nears_stepFlight hf htimely hrank hw.aboard.bridge
        hw.retry ch.draw
      · have hsame : w.step ch (.step (.flight n)) = w := by rw [step, run, hb]
        rw [hsame]
        exact .inr ⟨hw, hf, htimely⟩
      · exact .inl ⟨hw.step ch _, hnears⟩
    · exact .inr ⟨hw.step ch e, (unmoved_step hw.old he).1.trans hf,
        htimely.mono (now_le_step w ch e) (clock_le_step w ch e)⟩

/-- A resolution that is run after the longest wait goes on. -/
theorem nears_round (h : w.bridge.Nears cfg w.now n (k + 1)) (hw : w.Begun cfg n)
    (hwaited : Flight.longestWait cfg ≤ elapsed es) (ch : Choice) :
    ((w.steps es).step ch (.step (.flight n))).bridge.Nears cfg
      ((w.steps es).step ch (.step (.flight n))).now n k := by
  have hw' := hw.steps es
  cases h with
  | @aloft f aloft timely rank =>
      obtain hnears | ⟨hsame, htimely⟩ := nears_or_same aloft timely rank hw es
      · exact nears_step hnears hw' ch _
      · -- it still waits for the timer that it had at first, and that is over
        have hready := timely.not_isBlocked (Nat.add_le_add_left hwaited w.now)
        rw [← now_steps] at hready
        exact (Bridge.nears_stepFlight hsame htimely rank hw'.aboard.bridge hw'.retry
          ch.draw).resolve_left fun hblocked ↦ hready hblocked.1
  | landed outcome => exact nears_step (nears_steps (.landed outcome) hw es) hw' ch _

/-- A task is run again and again, and each time at least so long passes before that. -/
inductive Attends (τ : Task) (ms : Nat) : Nat → List (Choice × Event) → Prop
  | never {es : List (Choice × Event)} : Attends τ ms 0 es
  | again {k : Nat} {before after : List (Choice × Event)} {ch : Choice}
      (waited : ms ≤ elapsed before) (others : Attends τ ms k after) :
      Attends τ ms (k + 1) (before ++ (ch, .step τ) :: after)

/-- A resolution that is run often enough lands. -/
theorem lands_of_attends (h : w.bridge.Nears cfg w.now n k) (hw : w.Begun cfg n)
    (hes : Attends (.flight n) (Flight.longestWait cfg) k es) :
    ∃ o, (w.steps es).bridge.flights.outcome? n = some o := by
  induction hes generalizing w with
  | @never es =>
      cases nears_steps h hw es with
      | aloft aloft timely rank => exact absurd Flight.rank_pos (Nat.not_lt.mpr rank)
      | landed outcome => exact ⟨_, outcome⟩
  | @again k before after ch waited others ih =>
      rw [steps_append, steps_cons]
      exact ih (nears_round h hw waited ch) ((hw.steps before).step ch _)

/-- A resolution that has begun in a run never takes more steps from then on than its schedule has
delays, twice, and two more. -/
theorem exists_nears (hw : w.Aboard) (hold : w.bridge.flights.next ≤ n)
    (hn : n < (w.steps es).bridge.flights.next) :
    (w.steps es).bridge.Nears w.bridge.settings.retry (w.steps es).now n
      (2 * (w.bridge.settings.retry.maxAttempts + 1)) := by
  refine of_begun (P := fun w' _ ↦ w'.bridge.Nears w.bridge.settings.retry w'.now n
    (2 * (w.bridge.settings.retry.maxAttempts + 1))) hw hold hn ?_
  intro w' f hbegun hf hphase es
  refine nears_steps (.aloft hf ⟨fun t ht ↦ ?_, fun hne ↦ absurd hphase hne⟩ ?_) hbegun es
  · rw [Flight.timer, hphase] at ht
    cases ht
  · simp only [Flight.rank, hphase]
    omega

end World

end GroupOffsets
