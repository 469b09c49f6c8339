import Mathlib.Algebra.GroupWithZero.Nat
import GroupOffsets.Proofs.Resolution.Step

/-!
# The course of a resolution

Where a resolution stands in a run, given its log so far: it waits for the first lookup that says
something of the partition, as long as the schedule grants delays, and ends with what that one says.
`Bridge.Fares` is kept by every event, and so by every run.
-/

namespace GroupOffsets

open World (Choice Event Task)

namespace Flight

variable {cfg : Backoff.Config} {tp : TopicPartition} {now now' : Nat} {ts : List Trial}
  {log : Log} {begun : Nat} {f : Flight} {o : Option Resolution}

/-- How the resolution of a partition ends, given its log.  Each of the lookups but the last one
failed, and was followed by a delay. -/
inductive Ends (cfg : Backoff.Config) (tp : TopicPartition) : Log → Option Resolution → Prop
  /-- The partition was cached before the first lookup. -/
  | met {h : Handle} : Ends cfg tp ⟨[h], [], 0⟩ (some (.found h))
  | settled {failed : List Trial} {t : Trial} {backoff : Backoff} {ready : Nat}
      {o : Option Resolution} (targets : ∀ x ∈ failed ++ [t], x.target = tp)
      (granted : Granted cfg failed backoff ready) (slept : ready ≤ t.time)
      (settles : Settles cfg failed.length backoff t o) :
      Ends cfg tp ⟨[], failed ++ [t], failed.length + 1⟩ o

/-- Where the resolution of a partition stands, given the lookups that were judged and the number of
those that were begun. -/
inductive Course (cfg : Backoff.Config) (tp : TopicPartition) (now : Nat) :
    List Trial → (begun : Nat) → Flight → Prop
  | boarding {f : Flight} (phase : f.phase = .boarding) (target : f.target = tp) :
      Course cfg tp now [] 0 f
  | locating {ts : List Trial} {f : Flight} {ready answerAt giveUpAt : Nat}
      (phase : f.phase = .locating answerAt giveUpAt) (target : f.target = tp)
      (targets : ∀ x ∈ ts, x.target = tp) (granted : Granted cfg ts f.backoff ready)
      (slept : ready ≤ now) : Course cfg tp now ts (ts.length + 1) f
  | pausing {ts : List Trial} {f : Flight} {upTo : Nat} (phase : f.phase = .pausing upTo)
      (target : f.target = tp) (targets : ∀ x ∈ ts, x.target = tp)
      (granted : Granted cfg ts f.backoff upTo) : Course cfg tp now ts ts.length f

theorem Course.mono (h : Course cfg tp now ts begun f) (hnow : now ≤ now') :
    Course cfg tp now' ts begun f := by
  cases h with
  | boarding phase target => exact .boarding phase target
  | locating phase target targets granted slept =>
      exact .locating phase target targets granted (Nat.le_trans slept hnow)
  | pausing phase target targets granted => exact .pausing phase target targets granted

/-- The schedule grants no more lookups than it has delays, and the first one. -/
theorem Course.begun_le (h : Course cfg tp now ts begun f) : begun ≤ cfg.maxAttempts + 1 := by
  cases h with
  | boarding => exact Nat.zero_le _
  | locating _ _ _ granted => exact Nat.succ_le_succ granted.length_le
  | pausing _ _ _ granted => exact Nat.le_succ_of_le granted.length_le

theorem Course.ranges (h : Course cfg tp now ts begun f) (hdeparted : f.phase ≠ .boarding) :
    f.backoff.Ranges cfg := by
  cases h with
  | boarding phase => exact absurd phase hdeparted
  | locating _ _ _ granted => exact granted.ranges
  | pausing _ _ _ granted => exact granted.ranges

theorem Ends.begun_le (h : Ends cfg tp log o) : log.begun ≤ cfg.maxAttempts + 1 := by
  cases h with
  | met => exact Nat.zero_le _
  | settled _ granted => exact Nat.succ_le_succ granted.length_le

end Flight

namespace Bridge

open Flight (Trial Course Ends Granted Log)

variable {b b' : Bridge} {draw : Option Nat} {now now' n begun : Nat} {f f₁ : Flight}
  {l : Option Lookup} {cfg : Backoff.Config} {tp : TopicPartition} {ts : List Trial}
  {log more : Log}

/-! ## Resolutions of a bridge -/

/-- The resolution of a partition is in the air, or has landed, with this log. -/
inductive Fares (cfg : Backoff.Config) (tp : TopicPartition) (b : Bridge) (now n : Nat) : Log → Prop
  | aloft {ts : List Trial} {begun : Nat} {f : Flight} (aloft : b.aloft[n]? = some f)
      (course : Course cfg tp now ts begun f) : Fares cfg tp b now n ⟨[], ts, begun⟩
  | landed {log : Log} {o : Option Resolution} (outcome : b.flights.outcome? n = some o)
      (ends : Ends cfg tp log o) : Fares cfg tp b now n log

theorem Fares.begun_le (h : Fares cfg tp b now n log) : log.begun ≤ cfg.maxAttempts + 1 := by
  cases h with
  | aloft aloft course => exact course.begun_le
  | landed outcome ends => exact ends.begun_le

theorem Fares.congr (h : Fares cfg tp b now n log) (haloft : b'.aloft[n]? = b.aloft[n]?)
    (houtcome : b'.flights.outcome? n = b.flights.outcome? n) (hnow : now ≤ now') :
    Fares cfg tp b' now' n log := by
  cases h with
  | aloft aloft course => exact .aloft (haloft.trans aloft) (course.mono hnow)
  | landed outcome ends => exact .landed (houtcome.trans outcome) ends

/-- A resolution that has landed is not in the air any more. -/
theorem Aboard.aloft_of_landed {o : Option Resolution} (hb : b.Aboard)
    (h : b.flights.outcome? n = some o) : b.aloft[n]? = none := by
  refine Option.eq_none_iff_forall_ne_some.mpr fun f hf ↦ ?_
  cases (hb.sound.running (hb.works_eq hf)).symm.trans h

theorem Fares.ends {o : Option Resolution} (h : Fares cfg tp b now n log) (hb : b.Aboard)
    (ho : b.flights.outcome? n = some o) : Ends cfg tp log o := by
  cases h with
  | aloft aloft course => cases (hb.aloft_of_landed ho).symm.trans aloft
  | landed outcome ends =>
      cases outcome.symm.trans ho
      exact ends

theorem Fares.course (h : Fares cfg tp b now n log) (ho : b.flights.outcome? n = none) :
    ∃ f, b.aloft[n]? = some f ∧ Course cfg tp now log.trials log.begun f := by
  cases h with
  | aloft aloft course => exact ⟨_, aloft, course⟩
  | landed outcome ends => cases ho.symm.trans outcome

/-- The lookup that a resolution begins is one that the schedule allows. -/
theorem SetsOut.granted (hout : SetsOut b now f f₁) (hcfg : b.settings.retry = cfg)
    (h : Course cfg tp now ts begun f) : f₁.target = tp ∧ begun = ts.length ∧
      (∀ x ∈ ts, x.target = tp) ∧ ∃ ready, ready ≤ now ∧ Granted cfg ts f₁.backoff ready := by
  cases hout with
  | departs boarding =>
      cases h with
      | boarding phase target =>
          exact ⟨target, rfl, by simp, 0, Nat.zero_le _, hcfg ▸ .start⟩
      | locating phase => cases phase.symm.trans boarding
      | pausing phase => cases phase.symm.trans boarding
  | resumes pausing slept =>
      cases h with
      | boarding phase => cases phase.symm.trans pausing
      | locating phase => cases phase.symm.trans pausing
      | pausing phase target targets granted =>
          cases phase.symm.trans pausing
          exact ⟨target, rfl, targets, _, slept, granted⟩

/-- A lookup that the schedule allows is judged. -/
theorem Judges.fares {ready : Nat} (hj : Judges b draw now n f l b') (hb : b.Aboard)
    (haloft : (b.aloft[n]?).isSome) (hcfg : b.settings.retry = cfg) (htarget : f.target = tp)
    (htargets : ∀ x ∈ ts, x.target = tp) (hgranted : Granted cfg ts f.backoff ready)
    (hslept : ready ≤ now) :
    Fares cfg tp b' now n ⟨[], ts ++ [b.trial draw now f l], ts.length + 1⟩ := by
  have htargets' : ∀ x ∈ ts ++ [b.trial draw now f l], x.target = tp := by
    intro x hx
    rcases List.mem_append.mp hx with hx | hx
    · exact htargets x hx
    · rw [List.mem_singleton.mp hx]
      exact htarget
  cases hj with
  | @lands o settles flights aloft =>
      rw [hgranted.attempts_eq, hcfg] at settles
      exact .landed (hb.outcome?_of_finish haloft flights)
        (.settled htargets' hgranted hslept settles)
  | @pauses delay backoff transient granted flights aloft =>
      rw [hcfg] at granted
      have hpausing : b'.aloft[n]? = some { f with backoff, phase := .pausing (now + delay) } := by
        rw [aloft]
        exact Std.ExtTreeMap.getElem?_insert_self
      have hlength : (ts ++ [b.trial draw now f l]).length = ts.length + 1 := List.length_append
      exact .aloft hpausing (hlength ▸ .pausing rfl htarget htargets'
        (.delay hgranted transient hslept granted))

theorem trial_of_setsOut (hout : SetsOut b now f f₁) :
    b.trial draw now f₁ l = b.trial draw now f l := by
  cases hout <;> rfl

theorem Fares.step_aloft (hf : b.aloft[n]? = some f) (h : Course cfg tp now ts begun f)
    (hb : b.Aboard) (hcfg : b.settings.retry = cfg) (hp : Proceeds b draw now n f b' more) :
    Fares cfg tp b' now n (⟨[], ts, begun⟩ ++ more) := by
  have hsome : (b.aloft[n]?).isSome := Option.isSome_iff_exists.mpr ⟨f, hf⟩
  cases hp with
  | waits blocked same =>
      rw [same, Log.append_empty]
      exact .aloft hf h
  | @meets h' boarding flights aloft =>
      have houtcome := hb.outcome?_of_finish hsome flights
      cases h with
      | boarding => exact .landed houtcome .met
      | locating phase => cases phase.symm.trans boarding
      | pausing phase => cases phase.symm.trans boarding
  | @locates f₁ sets_out flights aloft =>
      obtain ⟨htarget, rfl, htargets, ready, hslept, hgranted⟩ := sets_out.granted hcfg h
      have hlog : (⟨[], ts, ts.length⟩ : Log) ++ ⟨[], [], 1⟩ = ⟨[], ts, ts.length + 1⟩ := by
        simp [Log.append_eq]
      rw [hlog]
      refine .aloft (aloft ▸ Std.ExtTreeMap.getElem?_insert_self) ?_
      exact .locating rfl htarget htargets hgranted hslept
  | @tries f₁ l sets_out judges =>
      -- the lookup is begun and judged in one step, so there is no place between the two
      obtain ⟨htarget, rfl, htargets, ready, hslept, hgranted⟩ := sets_out.granted hcfg h
      have hfares := judges.fares hb hsome hcfg htarget htargets hgranted hslept
      rwa [trial_of_setsOut sets_out] at hfares
  | @answers answerAt giveUpAt l locating judges =>
      cases h with
      | boarding phase => cases phase.symm.trans locating
      | locating phase target targets granted slept =>
          exact judges.fares hb hsome hcfg target targets granted slept
      | pausing phase => cases phase.symm.trans locating

/-- What the next step of the resolution with number `n` adds to its log. -/
def logged? (b : Bridge) (draw : Option Nat) (now n : Nat) : Log :=
  (b.aloft[n]?).elim ∅ (b.logged draw now n)

/-- A step of a resolution takes it on as it logs. -/
theorem Fares.step (h : Fares cfg tp b now n log) (hb : b.Aboard) (hcfg : b.settings.retry = cfg)
    (draw : Option Nat) :
    Fares cfg tp (b.stepFlight draw now n) now n (log ++ b.logged? draw now n) := by
  cases h with
  | aloft aloft course =>
      rw [logged?, aloft]
      exact step_aloft aloft course hb hcfg (proceeds_stepFlight draw now aloft)
  | landed outcome ends =>
      have hnone : b.aloft[n]? = none := hb.aloft_of_landed outcome
      rw [logged?, stepFlight, hnone]
      exact (Log.append_empty log).symm ▸ .landed outcome ends

/-- A step of one resolution does nothing to another one. -/
theorem unmoved_stepFlight {m : Nat} (hm : n ≠ m) :
    (b.stepFlight draw now m).aloft[n]? = b.aloft[n]? ∧
      (b.stepFlight draw now m).flights.outcome? n = b.flights.outcome? n := by
  have hinsert : ∀ f : Flight, (b.aloft.insert m f)[n]? = b.aloft[n]? := fun f ↦ by
    simp [Std.ExtTreeMap.getElem?_insert, Std.LawfulEqCmp.compare_eq_iff_eq, hm.symm]
  have herase : (b.aloft.erase m)[n]? = b.aloft[n]? := by
    simp [Std.ExtTreeMap.getElem?_erase, Std.LawfulEqCmp.compare_eq_iff_eq, hm.symm]
  cases hf : b.aloft[m]? with
  | none =>
      rw [Bridge.stepFlight, hf]
      exact ⟨rfl, rfl⟩
  | some f =>
      have hflies := flies_stepFlight draw now hf
      generalize b.obtains now m = obtained at hflies
      cases hflies with
      | waits departed same => exact ⟨by rw [same], by rw [same]⟩
      | goesOn departed target generation cache flights aloft =>
          exact ⟨by rw [aloft, hinsert], by rw [flights]⟩
      | lands lost cache flights aloft =>
          exact ⟨by rw [aloft, herase], by rw [flights, Flights.outcome?_finish_of_ne hm]⟩
      | meets boarding cached cache flights aloft =>
          exact ⟨by rw [aloft, herase], by rw [flights, Flights.outcome?_finish_of_ne hm]⟩
      | finds found cache flights aloft =>
          exact ⟨by rw [aloft, herase], by rw [flights, Flights.outcome?_finish_of_ne hm]⟩

/-- What a caller starts who joins a resolution with a new number. -/
theorem boarding_join {tp : TopicPartition} (hn : b.flights.next ≤ n)
    (hlt : n < (b.joinFlight tp).2.flights.next) :
    (b.joinFlight tp).2.aloft[n]? = some (.board b.settings.retry tp) := by
  simp only [joinFlight] at hlt ⊢
  rcases Flights.works_join_cases b.flights tp with ⟨-, hsame⟩ | ⟨hticket, hnext, -⟩
  · rw [hsame] at hlt
    omega
  · have heq : b.flights.next = n := by omega
    subst heq
    simp [hticket]

end Bridge

namespace World

open Flight (Log)

variable {w : World} {ch : Choice} {e : Event} {es : List (Choice × Event)} {n : Nat}
  {cfg : Backoff.Config} {tp : TopicPartition} {l : Log}

/-! ## Time -/

/-- How much time passes in a run. -/
def elapsed (es : List (Choice × Event)) : Nat :=
  (es.map fun
    | (_, .elapse ms) => ms
    | _ => 0).sum

theorem now_step (w : World) (ch : Choice) (e : Event) :
    (w.step ch e).now = w.now + elapsed [(ch, e)] := by
  cases e with
  | step τ =>
      cases τ <;> simp only [step, run, elapsed]
      · rfl
      all_goals split <;> rfl
  | cancel m =>
      simp only [step, cancel]
      split <;> rfl
  | elapse ms => rfl
  | _ => rfl

theorem now_steps (w : World) (es : List (Choice × Event)) :
    (w.steps es).now = w.now + elapsed es := by
  induction es generalizing w with
  | nil => rfl
  | cons e es ih =>
      obtain ⟨ch, e⟩ := e
      rw [steps_cons, ih, now_step, Nat.add_assoc]
      simp [elapsed]

theorem now_le_step (w : World) (ch : Choice) (e : Event) : w.now ≤ (w.step ch e).now := by
  rw [now_step]
  exact Nat.le_add_right ..

/-! ## The log of a resolution -/

/-- What an event adds to the log of a resolution. -/
def entry (w : World) (n : Nat) (ch : Choice) : Event → Log
  | .step (.flight m) => if m = n then w.bridge.logged? ch.draw w.now n else ∅
  | _ => ∅

/-- What a resolution meets and does in a run. -/
def log (n : Nat) : World → List (Choice × Event) → Log
  | _, [] => ∅
  | w, (ch, e) :: es => w.entry n ch e ++ log n (w.step ch e) es

theorem entry_own : w.entry n ch (.step (.flight n)) = w.bridge.logged? ch.draw w.now n := by
  rw [entry, if_pos rfl]

theorem entry_of_ne (h : e ≠ .step (.flight n)) : w.entry n ch e = ∅ := by
  rw [entry.eq_def]
  split
  · rename_i m
    have hm : m ≠ n := fun hm ↦ h (hm ▸ rfl)
    rw [if_neg hm]
  · rfl

theorem log_cons : log n w ((ch, e) :: es) = w.entry n ch e ++ log n (w.step ch e) es := rfl

theorem log_append (es' : List (Choice × Event)) :
    log n w (es ++ es') = log n w es ++ log n (w.steps es) es' := by
  induction es generalizing w with
  | nil => rw [List.nil_append, steps_nil, log, Log.empty_append]
  | cons e es ih =>
      obtain ⟨ch, e⟩ := e
      rw [List.cons_append, log_cons, log_cons, ih, Log.append_assoc, steps_cons]

/-! ## Resolutions in a run -/

/-- Only the steps of a resolution do anything to it. -/
theorem unmoved_step (hn : n < w.bridge.flights.next) (he : e ≠ .step (.flight n)) :
    (w.step ch e).bridge.aloft[n]? = w.bridge.aloft[n]? ∧
      (w.step ch e).bridge.flights.outcome? n = w.bridge.flights.outcome? n := by
  have hmove : Move w ch (w.step ch e) e := move_step e
  generalize w.step ch e = w' at hmove ⊢
  cases hmove with
  | @operates op bridge calls =>
      obtain ⟨hflights, haloft⟩ := w.bridge.flights_operate op
      rw [bridge, hflights, haloft]
      exact ⟨rfl, rfl⟩
  | @flies m bridge calls =>
      have hm : n ≠ m := fun h ↦ he (h ▸ rfl)
      rw [bridge]
      exact Bridge.unmoved_stepFlight hm
  | @goes τ c was bridge self others =>
      rw [bridge]
      obtain ⟨hflights, haloft⟩ | ⟨tp, hb⟩ := w.bridge.flights_stepCall_cases ch.order w.now c
      · rw [hflights, haloft]
        exact ⟨rfl, rfl⟩
      · rw [hb]
        exact ⟨Bridge.aloft_join hn, Flights.outcome?_join tp⟩
  | @cancels m c was bridge self others =>
      obtain ⟨_, hb⟩ := w.bridge.cancelCall_eq c
      rw [bridge, hb]
      exact ⟨rfl, rfl⟩
  | begins bridge self others =>
      rw [bridge]
      exact ⟨rfl, rfl⟩
  | idles bridge calls =>
      rw [bridge]
      exact ⟨rfl, rfl⟩

/-- A resolution with a new number has only been asked for. -/
theorem boarding_of_new (hn : w.bridge.flights.next ≤ n)
    (hlt : n < (w.step ch e).bridge.flights.next) :
    ∃ f, (w.step ch e).bridge.aloft[n]? = some f ∧ f.phase = .boarding := by
  have hmove : Move w ch (w.step ch e) e := move_step e
  generalize w.step ch e = w' at hmove hlt ⊢
  have hold : ¬ n < w.bridge.flights.next := Nat.not_lt.mpr hn
  cases hmove with
  | @operates op bridge calls =>
      rw [bridge, (w.bridge.flights_operate op).1] at hlt
      exact absurd hlt hold
  | @flies m bridge calls =>
      obtain hsame | ⟨outcome, hland⟩ := w.bridge.flights_stepFlight_cases ch.draw w.now m
      · rw [bridge, hsame] at hlt
        exact absurd hlt hold
      · rw [bridge, hland, Flights.next_finish] at hlt
        exact absurd hlt hold
  | @goes τ c was bridge self others =>
      rw [bridge] at hlt ⊢
      obtain ⟨hflights, -⟩ | ⟨tp, hb⟩ := w.bridge.flights_stepCall_cases ch.order w.now c
      · rw [hflights] at hlt
        exact absurd hlt hold
      · rw [hb] at hlt ⊢
        exact ⟨_, Bridge.boarding_join hn hlt, rfl⟩
  | @cancels m c was bridge self others =>
      obtain ⟨_, hb⟩ := w.bridge.cancelCall_eq c
      rw [bridge, hb] at hlt
      exact absurd hlt hold
  | begins bridge self others =>
      rw [bridge] at hlt
      exact absurd hlt hold
  | idles bridge calls =>
      rw [bridge] at hlt
      exact absurd hlt hold

/-- The resolution with number `n` has begun, and goes by this schedule. -/
structure Begun (w : World) (cfg : Backoff.Config) (n : Nat) : Prop where
  aboard : w.Aboard
  old : n < w.bridge.flights.next
  retry : w.bridge.settings.retry = cfg

theorem Begun.step (h : w.Begun cfg n) (ch : Choice) (e : Event) : (w.step ch e).Begun cfg n :=
  ⟨aboard_step h.aboard ch e, Nat.lt_of_lt_of_le h.old (next_le_step w ch e),
    by rw [settings_step, h.retry]⟩

theorem Begun.steps (h : w.Begun cfg n) (es : List (Choice × Event)) : (w.steps es).Begun cfg n :=
  steps_of_step (Begun · cfg n) (fun _ ch e h ↦ h.step ch e) h es

theorem Begun.fares_step (hw : w.Begun cfg n) (h : w.bridge.Fares cfg tp w.now n l) (ch : Choice)
    (e : Event) :
    (w.step ch e).bridge.Fares cfg tp (w.step ch e).now n (l ++ w.entry n ch e) := by
  by_cases he : e = .step (.flight n)
  · subst he
    rw [entry_own]
    exact h.step hw.aboard.bridge hw.retry ch.draw
  · obtain ⟨haloft, houtcome⟩ := unmoved_step hw.old he
    rw [entry_of_ne he, Log.append_empty]
    exact h.congr haloft houtcome (now_le_step w ch e)

/-- A run takes a resolution on from where it stood, as it logs. -/
theorem Begun.fares_steps (hw : w.Begun cfg n) (h : w.bridge.Fares cfg tp w.now n l)
    (es : List (Choice × Event)) :
    (w.steps es).bridge.Fares cfg tp (w.steps es).now n (l ++ log n w es) := by
  induction es generalizing w l with
  | nil =>
      rw [log, Log.append_empty]
      exact h
  | cons e es ih =>
      obtain ⟨ch, e⟩ := e
      rw [log_cons, ← Log.append_assoc]
      exact ih (hw.step ch e) (hw.fares_step h ch e)

/-- A resolution that nobody has asked for does nothing. -/
theorem entry_of_new (hw : w.Aboard) (hold : w.bridge.flights.next ≤ n) (ch : Choice) (e : Event) :
    w.entry n ch e = ∅ := by
  have hnone : w.bridge.aloft[n]? = none := Option.eq_none_iff_forall_ne_some.mpr fun f hf ↦
    absurd (hw.bridge.sound.works_old (hw.bridge.works_eq hf)) (Nat.not_lt.mpr hold)
  by_cases he : e = .step (.flight n)
  · subst he
    rw [entry_own, Bridge.logged?, hnone]
    rfl
  · exact entry_of_ne he

/-- What holds of every resolution that has only been asked for, and is kept by a run, holds of
every resolution that has begun in a run. -/
theorem of_begun {P : World → Log → Prop} (hw : w.Aboard) (hold : w.bridge.flights.next ≤ n)
    (hn : n < (w.steps es).bridge.flights.next)
    (hboards : ∀ (w' : World) (f : Flight), w'.Begun w.bridge.settings.retry n →
      w'.bridge.aloft[n]? = some f → f.phase = .boarding → ∀ es, P (w'.steps es) (log n w' es)) :
    P (w.steps es) (log n w es) := by
  induction es generalizing w with
  | nil => exact absurd hn (Nat.not_lt.mpr hold)
  | cons e es ih =>
      obtain ⟨ch, e⟩ := e
      have hretry : (w.step ch e).bridge.settings.retry = w.bridge.settings.retry := by
        rw [settings_step]
      rw [log_cons, entry_of_new hw hold ch e, Log.empty_append]
      by_cases hnew : n < (w.step ch e).bridge.flights.next
      · obtain ⟨f, hf, hphase⟩ := boarding_of_new hold hnew
        exact hboards _ f ⟨aboard_step hw ch e, hnew, hretry⟩ hf hphase es
      · exact ih (aboard_step hw ch e) (Nat.le_of_not_lt hnew) hn (by rwa [hretry])

/-- Every resolution that has begun in a run stands where its log has taken it. -/
theorem exists_fares (hw : w.Aboard) (hold : w.bridge.flights.next ≤ n)
    (hn : n < (w.steps es).bridge.flights.next) : ∃ tp, (w.steps es).bridge.Fares
      w.bridge.settings.retry tp (w.steps es).now n (log n w es) := by
  refine of_begun (P := fun w' l ↦ ∃ tp,
    w'.bridge.Fares w.bridge.settings.retry tp w'.now n l) hw hold hn ?_
  intro w' f hbegun hf hphase es
  have hfares := hbegun.fares_steps (.aloft hf (.boarding hphase rfl)) es
  exact ⟨f.target, Log.empty_append (log n w' es) ▸ hfares⟩

end World

end GroupOffsets
