import GroupOffsets.Proofs.Aloft
import GroupOffsets.Proofs.Backoff
import GroupOffsets.Proofs.Cache

/-!
# The lookups of a resolution

A resolution goes from one lookup to the next.  `Flight.Granted` says that the schedule grants a
delay after each of some lookups, all of which failed, and `Flight.Settles` what a lookup makes of
the resolution that it ends.  `Bridge.Proceeds` has all that one step can do, with what it adds to
the log of the resolution.
-/

namespace GroupOffsets

namespace Flight

/-! ## Lookups and the schedule -/

/-- A lookup that is judged, and what it is judged by. -/
structure Trial where
  target : TopicPartition
  /-- What came of the lookup; `none` if no answer came in time. -/
  lookup : Option Lookup
  /-- The handle on the partition that is cached at that time. -/
  cached : Option Handle
  time : Nat
  /-- What the clock of the schedule shows. -/
  clock : Nat
  draw : Option Nat

/-- Whether nothing is known of the partition after a lookup: it failed, or was not answered. -/
def Trial.isTransient (t : Trial) : Bool :=
  match t.lookup with
  | none | some (.failed _) => true
  | _ => false

/-- What a resolution has met and done. -/
structure Log where
  /-- The handle on its partition that was cached when it set out, if there was one. -/
  met : List Handle
  /-- The lookups that were judged. -/
  trials : List Trial
  /-- The number of lookups that were begun. -/
  begun : Nat

namespace Log

instance : EmptyCollection Log := ⟨⟨[], [], 0⟩⟩

instance : Append Log := ⟨fun a b ↦ ⟨a.met ++ b.met, a.trials ++ b.trials, a.begun + b.begun⟩⟩

theorem append_eq (a b : Log) :
    a ++ b = ⟨a.met ++ b.met, a.trials ++ b.trials, a.begun + b.begun⟩ := rfl

@[simp] theorem empty_append (a : Log) : ∅ ++ a = a := by
  change (⟨a.met, a.trials, 0 + a.begun⟩ : Log) = a
  rw [Nat.zero_add]

@[simp] theorem append_empty (a : Log) : a ++ ∅ = a := by
  change (⟨a.met ++ [], a.trials ++ [], a.begun⟩ : Log) = a
  rw [List.append_nil, List.append_nil]

theorem append_assoc (a b c : Log) : a ++ b ++ c = a ++ (b ++ c) := by
  simp only [append_eq, List.append_assoc, Nat.add_assoc]

end Log

/-- The schedule grants a delay after each of some lookups, which all failed.  No lookup begins
before the delay is over; the last one is over when `ready` is reached. -/
inductive Granted (cfg : Backoff.Config) : List Trial → Backoff → (ready : Nat) → Prop
  | start : Granted cfg [] (.start cfg) 0
  | delay {ts : List Trial} {t : Trial} {backoff backoff' : Backoff} {ready delay : Nat}
      (so_far : Granted cfg ts backoff ready) (transient : t.isTransient = true)
      (slept : ready ≤ t.time)
      (granted : backoff.next cfg t.draw t.clock = (some delay, backoff')) :
      Granted cfg (ts ++ [t]) backoff' (t.time + delay)

/-- What a lookup makes of the resolution that it ends, after so many delays. -/
inductive Settles (cfg : Backoff.Config) (delays : Nat) (backoff : Backoff) (t : Trial) :
    Option Resolution → Prop
  /-- If another handle on the partition is cached by then, that one stays. -/
  | found {h h' : Handle} (lookup : t.lookup = some (.found h))
      (kept : h' = h ∨ t.cached = some h') : Settles cfg delays backoff t (some (.found h'))
  | absent (lookup : t.lookup = some .absent) : Settles cfg delays backoff t (some .notFound)
  | died (lookup : t.lookup = some .died) : Settles cfg delays backoff t none
  | exhausted (transient : t.isTransient = true) (spent : backoff.isSpent cfg = true) :
      Settles cfg delays backoff t (some (.exhausted delays))

variable {cfg : Backoff.Config} {ts : List Trial} {backoff backoff' : Backoff}
  {ready delay clock : Nat} {draw : Option Nat}

/-- A delay is granted while there are some left; it is counted, and bounded. -/
theorem of_next_eq_some (h : backoff.next cfg draw clock = (some delay, backoff')) :
    backoff.attempts < cfg.maxAttempts ∧ backoff'.attempts = backoff.attempts + 1 ∧
      delay ≤ Nat.max cfg.initial cfg.mandatoryStop := by
  obtain ⟨hspent, rfl, -, hle⟩ := Backoff.next_eq_some h
  refine ⟨(Backoff.isSpent_eq_false.mp hspent).2, rfl, Nat.le_trans hle ?_⟩
  exact Nat.max_le.mpr ⟨Backoff.fitted_le .., Nat.le_max_left ..⟩

theorem Granted.attempts_eq (h : Granted cfg ts backoff ready) : backoff.attempts = ts.length := by
  induction h with
  | start => rfl
  | delay so_far transient slept granted ih =>
      rw [(of_next_eq_some granted).2.1, ih, List.length_append]
      rfl

theorem Granted.length_le (h : Granted cfg ts backoff ready) : ts.length ≤ cfg.maxAttempts := by
  induction h with
  | start => exact Nat.zero_le _
  | delay so_far transient slept granted ih =>
      rw [List.length_append, ← so_far.attempts_eq]
      exact (of_next_eq_some granted).1

theorem Granted.ranges (h : Granted cfg ts backoff ready) : backoff.Ranges cfg := by
  induction h with
  | start => exact Backoff.ranges_start cfg
  | delay so_far transient slept granted ih =>
      obtain ⟨-, rfl, -⟩ := Backoff.next_eq_some granted
      exact ih.following _

end Flight

namespace Bridge

variable {b b' : Bridge} {draw : Option Nat} {now n : Nat} {f f' : Flight} {l : Option Lookup}

/-! ## One step -/

/-- The lookup that the next step of a resolution judges, if it judges one. -/
def judged? (b : Bridge) (now : Nat) (f : Flight) : Option (Option Lookup) :=
  let answer := (b.store.lookup f.target).1
  match f.phase with
  | .boarding =>
    if (b.cache.get? f.target).isNone ∧ b.store.lookupDelay = 0 then some (some answer) else none
  | .locating answerAt giveUpAt =>
    if answerAt ≤ now then some (some answer)
    else if giveUpAt ≤ now then some none
    else none
  | .pausing upTo => if upTo ≤ now ∧ b.store.lookupDelay = 0 then some (some answer) else none

/-- A lookup as it is judged. -/
def trial (b : Bridge) (draw : Option Nat) (now : Nat) (f : Flight) (l : Option Lookup) :
    Flight.Trial :=
  ⟨f.target, l, b.cache.get? f.target, now, b.clock now, draw⟩

/-- What the next step of a resolution adds to its log. -/
def logged (b : Bridge) (draw : Option Nat) (now n : Nat) (f : Flight) : Flight.Log where
  met :=
    match f.phase with
    | .boarding => (b.cache.get? f.target).toList
    | _ => []
  trials := ((b.judged? now f).map (b.trial draw now f)).toList
  begun := (b.stepFlight draw now n).store.lookups - b.store.lookups

/-- What the judgement of a lookup makes of a resolution: it lands, or makes a pause. -/
inductive Judges (b : Bridge) (draw : Option Nat) (now n : Nat) (f : Flight) (l : Option Lookup)
    (b' : Bridge) : Prop
  | lands {o : Option Resolution}
      (settles : Flight.Settles b.settings.retry f.backoff.attempts f.backoff
        (b.trial draw now f l) o)
      (flights : b'.flights = b.flights.finish n o) (aloft : b'.aloft = b.aloft.erase n)
  | pauses {delay : Nat} {backoff : Backoff}
      (transient : (b.trial draw now f l).isTransient = true)
      (granted : f.backoff.next b.settings.retry draw (b.clock now) = (some delay, backoff))
      (flights : b'.flights = b.flights)
      (aloft : b'.aloft = b.aloft.insert n { f with backoff, phase := .pausing (now + delay) })

/-- A resolution that begins a lookup: the first one, or the next one after a delay. -/
inductive SetsOut (b : Bridge) (now : Nat) (f : Flight) : Flight → Prop
  | departs (boarding : f.phase = .boarding) : SetsOut b now f
      (f.depart b.settings.retry (b.clock now) (b.cache.generation f.target.topic))
  | resumes {upTo : Nat} (pausing : f.phase = .pausing upTo) (slept : upTo ≤ now) :
      SetsOut b now f f

/-- What a step makes of a resolution, and what is logged of it. -/
inductive Proceeds (b : Bridge) (draw : Option Nat) (now n : Nat) (f : Flight) (b' : Bridge) :
    Flight.Log → Prop
  | waits (blocked : f.isBlocked now = true) (same : b' = b) : Proceeds b draw now n f b' ∅
  /-- The partition was cached before the resolution began. -/
  | meets {h : Handle} (boarding : f.phase = .boarding)
      (flights : b'.flights = b.flights.finish n (some (.found h)))
      (aloft : b'.aloft = b.aloft.erase n) : Proceeds b draw now n f b' ⟨[h], [], 0⟩
  | locates {f₁ : Flight} (sets_out : SetsOut b now f f₁)
      (flights : b'.flights = b.flights)
      (aloft : b'.aloft = b.aloft.insert n { f₁ with
        phase := .locating (now + b.store.lookupDelay)
          (now + f₁.budget b.settings.retry (b.clock now)) }) :
      Proceeds b draw now n f b' ⟨[], [], 1⟩
  /-- The owner answers at once. -/
  | tries {f₁ : Flight} {l : Option Lookup} (sets_out : SetsOut b now f f₁)
      (judges : Judges b draw now n f₁ l b') :
      Proceeds b draw now n f b' ⟨[], [b.trial draw now f l], 1⟩
  | answers {answerAt giveUpAt : Nat} {l : Option Lookup}
      (locating : f.phase = .locating answerAt giveUpAt)
      (judges : Judges b draw now n f l b') :
      Proceeds b draw now n f b' ⟨[], [b.trial draw now f l], 0⟩

/-- A resolution that lands has its outcome. -/
theorem Aboard.outcome?_of_finish {o : Option Resolution} (hb : b.Aboard)
    (haloft : (b.aloft[n]?).isSome) (hflights : b'.flights = b.flights.finish n o) :
    b'.flights.outcome? n = some o := by
  obtain ⟨f, hf⟩ := Option.isSome_iff_exists.mp haloft
  rw [hflights]
  exact Flights.outcome?_finish_self (hb.works_eq hf)

theorem kept_insertResolved (c : Cache) (tp : TopicPartition) (h : Handle) (generation : Nat) :
    (c.insertResolved tp h generation).1 = h ∨
      c.get? tp = some (c.insertResolved tp h generation).1 := by
  rw [Cache.insertResolved]
  split
  · cases hget : c.get? tp with
    | some cached =>
        rw [Cache.insertIfAbsent_of_some hget]
        exact .inr rfl
    | none =>
        rw [Cache.insertIfAbsent_of_none hget]
        exact .inl rfl
  · exact .inl rfl

/-- A lookup that says nothing of the partition ends the resolution only if no delay is left. -/
theorem judges_of_transient (b : Bridge) (store : Store) (draw : Option Nat) (now n : Nat)
    (f : Flight) (htransient : (b.trial draw now f l).isTransient = true) :
    Judges b draw now n f l (({ b with store } : Bridge).conclude draw now n f l) := by
  have hclock : ({ b with store } : Bridge).clock now = b.clock now := rfl
  have hl : l = none ∨ ∃ e, l = some (.failed e) := by
    simp only [trial, Flight.Trial.isTransient] at htransient
    split at htransient
    · exact .inl rfl
    · exact .inr ⟨_, rfl⟩
    · cases htransient
  cases hnext : f.backoff.next b.settings.retry draw (b.clock now) with
  | mk delay backoff =>
      cases delay with
      | some delay =>
          refine .pauses htransient hnext ?_ ?_
          all_goals
            rcases hl with rfl | ⟨e, rfl⟩ <;> simp only [conclude, Flight.judge, hclock, hnext]
      | none =>
          obtain ⟨hspent, rfl⟩ := Backoff.next_eq_none hnext
          refine .lands (.exhausted htransient hspent) ?_ ?_
          all_goals
            rcases hl with rfl | ⟨e, rfl⟩ <;>
              simp only [conclude, Flight.judge, hclock, hnext, land]

/-- The judgement has nothing to do with the store. -/
theorem judges_conclude (b : Bridge) (store : Store) (draw : Option Nat) (now n : Nat) (f : Flight)
    (l : Option Lookup) :
    Judges b draw now n f l (({ b with store } : Bridge).conclude draw now n f l) := by
  match l with
  | some (.found h) => exact .lands (.found rfl (kept_insertResolved ..)) rfl rfl
  | some .absent => exact .lands (.absent rfl) rfl rfl
  | some .died => exact .lands (.died rfl) rfl rfl
  | some (.failed _) => exact judges_of_transient b store draw now n f rfl
  | none => exact judges_of_transient b store draw now n f rfl

theorem judges_answerLookup (b : Bridge) (store : Store) (draw : Option Nat) (now n : Nat)
    (f : Flight) : Judges b draw now n f (some (store.lookup f.target).1)
      (({ b with store } : Bridge).answerLookup draw now n f) := by
  have hjudges := judges_conclude b (store.lookup f.target).2 draw now n f
    (some (store.lookup f.target).1)
  exact hjudges

theorem lookups_conclude : (b.conclude draw now n f l).store.lookups = b.store.lookups := by
  obtain ⟨_, _, _, _, hb⟩ := b.conclude_eq now n draw f l
  rw [hb]

theorem lookups_answerLookup : (b.answerLookup draw now n f).store.lookups = b.store.lookups := by
  obtain ⟨_, _, hs⟩ := b.store.lookup_eq f.target
  simp only [answerLookup, lookups_conclude, hs]

/-- A lookup that is begun is answered at once, or awaited. -/
theorem proceeds_beginLookup (hout : SetsOut b now f f') (htarget : f'.target = f.target) :
    Proceeds b draw now n f (b.beginLookup draw now n f')
      ⟨[], ((if b.store.lookupDelay = 0 then some (some (b.store.lookup f.target).1)
        else none).map (b.trial draw now f)).toList,
        (b.beginLookup draw now n f').store.lookups - b.store.lookups⟩ := by
  have hdelay : b.store.beginLookup.lookupDelay = b.store.lookupDelay := rfl
  have hbegun : b.store.beginLookup.lookups - b.store.lookups = 1 := Nat.add_sub_cancel_left ..
  simp only [beginLookup, hdelay]
  split
  · have hjudges := judges_answerLookup b b.store.beginLookup draw now n f'
    rw [Store.lookup_beginLookup, htarget] at hjudges
    rw [lookups_answerLookup, hbegun]
    exact .tries hout hjudges
  · rw [hbegun]
    exact .locates hout rfl rfl

/-- One step of a resolution. -/
theorem proceeds_stepFlight (draw : Option Nat) (now : Nat) (hf : b.aloft[n]? = some f) :
    Proceeds b draw now n f (b.stepFlight draw now n) (b.logged draw now n f) := by
  rw [logged, stepFlight, hf, judged?]
  dsimp only
  cases hphase : f.phase with
  | boarding =>
      dsimp only
      cases hget : b.cache.get? f.target with
      | some h =>
          have hsame : (b.land n (some (.found h))).store.lookups - b.store.lookups = 0 :=
            Nat.sub_self _
          rw [hsame]
          exact .meets hphase rfl rfl
      | none =>
          simp only [Option.isNone_none, true_and]
          exact proceeds_beginLookup (.departs hphase) rfl
  | locating answerAt giveUpAt =>
      dsimp only
      split
      · rw [lookups_answerLookup, Nat.sub_self]
        exact .answers hphase (judges_answerLookup b b.store draw now n f)
      · split
        · rw [lookups_conclude, Nat.sub_self]
          exact .answers hphase (judges_conclude b b.store draw now n f none)
        · rename_i hanswer hgiveUp
          rw [Nat.sub_self]
          refine .waits ?_ rfl
          simp only [Flight.isBlocked, hphase]
          simpa using ⟨Nat.lt_of_not_le hanswer, Nat.lt_of_not_le hgiveUp⟩
  | pausing upTo =>
      dsimp only
      split
      · rename_i hup
        simp only [hup, true_and]
        exact proceeds_beginLookup (.resumes hphase hup) rfl
      · rename_i hup
        simp only [hup, false_and, if_false, Nat.sub_self]
        refine .waits ?_ rfl
        simpa [Flight.isBlocked, hphase] using hup

end Bridge

end GroupOffsets
