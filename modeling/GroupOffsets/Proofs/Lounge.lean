import Mathlib.Data.List.Induction
import GroupOffsets.Proofs.Flights

/-!
# Callers who share a work

Callers join works, wait for them and go away, and works end, in any order and for any keys.  Each
key has one running work at most; a caller is told how the very work ended that ran for its key when
it came, and nobody notices that another one went away.
-/

namespace GroupOffsets

/-! ## Events -/

namespace Lounge

/-- What can happen to callers and works. -/
inductive Event (κ ν : Type) where
  | join (k : κ)
  /-- The work that a caller started ends, if it still runs: with a value, or without one. -/
  | finish (n : Nat) (outcome : Option ν)
  | wait (n : Nat)
  | drop (n : Nat)
  deriving DecidableEq, Repr

variable {κ ν : Type}

/-- What a caller does with its ticket when an event happens. -/
def watch (n : Nat) (w : Watch) : Event κ ν → Watch
  | .wait m => if m = n ∧ w = .idle then .waiting else w
  | .drop m => if m = n then .gone else w
  | .join _ | .finish _ _ => w

theorem foldl_watch_gone (n : Nat) (es : List (Event κ ν)) :
    es.foldl (watch n) .gone = .gone := by
  induction es with
  | nil => rfl
  | cons e es ih =>
      have hgone : watch n .gone e = .gone := by cases e <;> simp [watch]
      rw [List.foldl_cons, hgone, ih]

theorem foldl_watch_waiting (n : Nat) (es : List (Event κ ν)) :
    es.foldl (watch n) .waiting = .waiting ↔ .drop n ∉ es := by
  induction es with
  | nil => simp
  | cons e es ih =>
      rw [List.foldl_cons]
      cases e with
      | drop m =>
          by_cases hm : m = n
          · simp [watch, hm, foldl_watch_gone]
          · have hne : n ≠ m := fun h ↦ hm h.symm
            simp [watch, hm, hne, ih]
      | _ => simp [watch, ih]

/-- A caller waits once it has begun to, unless it goes away. -/
theorem foldl_watch_idle (n : Nat) (es : List (Event κ ν)) :
    es.foldl (watch n) .idle = .waiting ↔ .wait n ∈ es ∧ .drop n ∉ es := by
  induction es with
  | nil => simp
  | cons e es ih =>
      rw [List.foldl_cons]
      cases e with
      | wait m =>
          by_cases hm : m = n
          · simp [watch, hm, foldl_watch_waiting]
          · have hne : n ≠ m := fun h ↦ hm h.symm
            simp [watch, hm, hne, ih]
      | drop m =>
          by_cases hm : m = n
          · simp [watch, hm, foldl_watch_gone]
          · have hne : n ≠ m := fun h ↦ hm h.symm
            simp [watch, hm, hne, ih]
      | _ => simp [watch, ih]

/-! ## Runs -/

variable [Ord κ] [Std.TransOrd κ]

/-- The callers and works after an event. -/
def step (s : Lounge κ ν) : Event κ ν → Lounge κ ν
  | .join k => (s.join k).2.2
  | .finish n outcome => (s.finish n outcome).getD s
  | .wait n => s.wait n
  | .drop n => s.drop n

/-- The callers and works after a run of events. -/
def run (s : Lounge κ ν) (es : List (Event κ ν)) : Lounge κ ν := es.foldl step s

variable {s s' : Lounge κ ν} {e : Event κ ν} {es es' : List (Event κ ν)} {k : κ}
variable {c m n : Nat} {o : Option ν} {ticket : Ticket} {w : Watch}

@[simp] theorem run_nil : s.run [] = s := rfl

@[simp] theorem run_cons : s.run (e :: es) = (s.step e).run es := rfl

@[simp] theorem run_append : s.run (es ++ es') = (s.run es).run es' := List.foldl_append

/-! ## Callers -/

theorem callers_finish (n : Nat) (o : Option ν) : (s.step (.finish n o)).callers = s.callers := by
  rw [step, finish]
  split
  · split <;> rfl
  · rfl

omit [Std.TransOrd κ] in
theorem tickets_wait (m n : Nat) :
    ((s.wait m).callers[n]?).map Prod.fst = (s.callers[n]?).map Prod.fst := by
  rw [wait, Array.getElem?_modify]
  split
  · rcases s.callers[n]? with _ | ⟨ticket, _ | _ | _⟩ <;> rfl
  · rfl

omit [Std.TransOrd κ] in
theorem tickets_drop (m n : Nat) :
    ((s.drop m).callers[n]?).map Prod.fst = (s.callers[n]?).map Prod.fst := by
  rw [drop, Array.getElem?_modify]
  split
  · rcases s.callers[n]? with _ | ⟨ticket, w⟩ <;> rfl
  · rfl

/-- Callers keep the tickets that they got. -/
theorem callers_step (e : Event κ ν) (h : s.callers[n]? = some (ticket, w)) :
    (s.step e).callers[n]? = some (ticket, watch n w e) := by
  cases e with
  | join k =>
      have hlt : n < s.callers.size := (Array.getElem?_eq_some_iff.mp h).1
      have hne : n ≠ s.callers.size := Nat.ne_of_lt hlt
      simp [step, join, watch, Array.getElem?_push, hne, h]
  | finish m o => rw [callers_finish, h, watch]
  | wait m =>
      rw [step, wait, Array.getElem?_modify, h]
      by_cases hm : m = n
      · cases w <;> simp [watch, hm]
      · simp [watch, hm]
  | drop m =>
      rw [step, drop, Array.getElem?_modify, h]
      by_cases hm : m = n
      · simp [watch, hm]
      · simp [watch, hm]

theorem callers_run (es : List (Event κ ν)) (h : s.callers[n]? = some (ticket, w)) :
    (s.run es).callers[n]? = some (ticket, es.foldl (watch n) w) := by
  induction es generalizing s w with
  | nil => exact h
  | cons e es ih => exact ih (callers_step e h)

/-! ## Works -/

/-- Caller `m` started the work `c`, which still runs. -/
structure Runs (s : Lounge κ ν) (m c : Nat) : Prop where
  started : ∃ w, s.callers[m]? = some (⟨c, true⟩, w)
  running : (s.flights.works[c]?).isSome

theorem finish_of_runs (h : s.Runs m c) (o : Option ν) :
    s.finish m o = some { s with flights := s.flights.finish c o } := by
  obtain ⟨w, hm⟩ := h.started
  have hc : s.flights.works.contains c = true := by
    rw [Std.ExtTreeMap.contains_iff_mem, Std.ExtTreeMap.mem_iff_isSome_getElem?]
    exact h.running
  simp [finish, hm, hc]

theorem finish_of_not_runs (h : ∀ c, ¬ s.Runs m c) (o : Option ν) : s.finish m o = none := by
  rw [finish]
  split
  · rename_i ticket w hm
    rw [if_neg]
    intro hboth
    obtain ⟨hleads, hc⟩ := Bool.and_eq_true_iff.mp hboth
    obtain ⟨c, leader⟩ := ticket
    subst hleads
    rw [Std.ExtTreeMap.contains_iff_mem, Std.ExtTreeMap.mem_iff_isSome_getElem?] at hc
    exact h c ⟨⟨w, hm⟩, hc⟩
  · rfl

/-- What an event does to the works: a caller joins, a running work ends, or nothing. -/
theorem flights_step_cases (s : Lounge κ ν) (e : Event κ ν) :
    (∃ k, e = .join k ∧ (s.step e).flights = (s.flights.join k).2) ∨
      (∃ m o c, e = .finish m o ∧ s.Runs m c ∧ (s.step e).flights = s.flights.finish c o) ∨
        (∀ m o c, e = .finish m o → ¬ s.Runs m c) ∧ (s.step e).flights = s.flights := by
  cases e with
  | join k => exact .inl ⟨k, rfl, rfl⟩
  | finish m o =>
      by_cases h : ∃ c, s.Runs m c
      · obtain ⟨c, hc⟩ := h
        refine .inr (.inl ⟨m, o, c, rfl, hc, ?_⟩)
        rw [step, finish_of_runs hc, Option.getD_some]
      · have hidle : ∀ c, ¬ s.Runs m c := fun c hc ↦ h ⟨c, hc⟩
        refine .inr (.inr ⟨?_, ?_⟩)
        · rintro _ _ c ⟨⟩
          exact hidle c
        · rw [step, finish_of_not_runs hidle, Option.getD_none]
  | wait n => exact .inr (.inr ⟨fun _ _ _ h ↦ (nomatch h), rfl⟩)
  | drop n => exact .inr (.inr ⟨fun _ _ _ h ↦ (nomatch h), rfl⟩)

/-- The flights are sound, and every running work was started by some caller, gone or not. -/
structure Sound (s : Lounge κ ν) : Prop where
  flights : s.flights.Sound
  led : ∀ {c : Nat} {k : κ}, s.flights.works[c]? = some k → ∃ m, s.Runs m c

theorem sound_empty : (∅ : Lounge κ ν).Sound := by
  refine ⟨Flights.sound_empty, fun {c k} h ↦ ?_⟩
  have hworks : (∅ : Lounge κ ν).flights.works = ∅ := rfl
  rw [hworks] at h
  simp at h

/-- The ticket of a new caller. -/
theorem callers_join (s : Lounge κ ν) (k : κ) :
    (s.step (.join k)).callers[s.callers.size]? = some ((s.flights.join k).1, .idle) := by
  simp [step, join]

/-- A work comes to an end in a run, with this outcome. -/
def EndsIn (s : Lounge κ ν) (es : List (Event κ ν)) (c : Nat) (o : Option ν) : Prop :=
  ∃ before m after, es = before ++ .finish m o :: after ∧ (s.run before).Runs m c

/-- What is known of how a work ended was known before, or the work has just ended so. -/
theorem Sound.outcome?_step (h : s.Sound) : (s.step e).flights.outcome? c = some o ↔
    s.flights.outcome? c = some o ∨ ∃ m, e = .finish m o ∧ s.Runs m c := by
  rcases flights_step_cases s e with ⟨k, rfl, hflights⟩ | ⟨m, o', c', rfl, hruns, hflights⟩ |
    ⟨hidle, hflights⟩
  · rw [hflights, Flights.outcome?_join]
    simp
  · obtain ⟨k, hk⟩ := Option.isSome_iff_exists.mp hruns.running
    rw [hflights]
    by_cases hc : c = c'
    · subst hc
      rw [Flights.outcome?_finish_self hk, h.flights.running hk]
      constructor
      · rintro ⟨⟩
        exact .inr ⟨m, rfl, hruns⟩
      · rintro (hnone | ⟨_, ⟨⟩, -⟩)
        · cases hnone
        · rfl
    · rw [Flights.outcome?_finish_of_ne hc]
      constructor
      · exact .inl
      · rintro (hold | ⟨_, ⟨⟩, hruns'⟩)
        · exact hold
        · obtain ⟨w, hw⟩ := hruns.started
          obtain ⟨w', hw'⟩ := hruns'.started
          cases hw.symm.trans hw'
          exact absurd rfl hc
  · rw [hflights]
    constructor
    · exact .inl
    · rintro (hold | ⟨m, rfl, hruns⟩)
      · exact hold
      · exact absurd hruns (hidle m o c rfl)

variable [Std.LawfulEqOrd κ]

theorem Sound.step (h : s.Sound) (e : Event κ ν) : (s.step e).Sound := by
  have hstarted : ∀ {m c}, s.Runs m c → ∃ w, (s.step e).callers[m]? = some (⟨c, true⟩, w) := by
    intro m c hruns
    obtain ⟨w, hw⟩ := hruns.started
    exact ⟨_, callers_step e hw⟩
  rcases flights_step_cases s e with ⟨k, rfl, hflights⟩ | ⟨m, o, c, rfl, hruns, hflights⟩ |
    ⟨-, hflights⟩
  · refine ⟨hflights ▸ h.flights.join k, fun {c k'} hc ↦ ?_⟩
    rcases Flights.works_join_cases s.flights k with ⟨-, hsame⟩ | ⟨hticket, -, hworks⟩
    · rw [hflights, hsame] at hc
      obtain ⟨m, hm⟩ := h.led hc
      exact ⟨m, hstarted hm, by rw [hflights, hsame]; exact hm.running⟩
    · rw [hflights, hworks] at hc
      by_cases hnew : c = s.flights.next
      · have hcaller := callers_join s k
        rw [hticket] at hcaller
        refine ⟨s.callers.size, ⟨_, hnew ▸ hcaller⟩, ?_⟩
        rw [hflights, hworks, if_pos hnew]
        rfl
      · rw [if_neg hnew] at hc
        obtain ⟨m, hm⟩ := h.led hc
        refine ⟨m, hstarted hm, ?_⟩
        rw [hflights, hworks, if_neg hnew]
        exact hm.running
  · refine ⟨hflights ▸ h.flights.finish c o, fun {c' k'} hc ↦ ?_⟩
    rw [hflights, Flights.works_finish] at hc
    split at hc
    · cases hc
    · rename_i hne
      obtain ⟨m', hm'⟩ := h.led hc
      refine ⟨m', hstarted hm', ?_⟩
      rw [hflights, Flights.works_finish, if_neg hne]
      exact hm'.running
  · refine ⟨hflights ▸ h.flights, fun {c k} hc ↦ ?_⟩
    rw [hflights] at hc
    obtain ⟨m, hm⟩ := h.led hc
    exact ⟨m, hstarted hm, hflights ▸ hm.running⟩

theorem Sound.run (h : s.Sound) (es : List (Event κ ν)) : (s.run es).Sound := by
  induction es generalizing s with
  | nil => exact h
  | cons e es ih => exact ih (h.step e)

/-- What is known of how a work ended was known before the run, or the work ended in it. -/
theorem Sound.outcome?_run (h : s.Sound) (es : List (Event κ ν)) :
    (s.run es).flights.outcome? c = some o ↔
      s.flights.outcome? c = some o ∨ s.EndsIn es c o := by
  induction es using List.reverseRecOn with
  | nil => simp [EndsIn]
  | append_singleton es e ih =>
      rw [run_append, run_cons, run_nil, (h.run es).outcome?_step, ih, or_assoc]
      refine or_congr_right ?_
      constructor
      · rintro (⟨before, m, after, rfl, hruns⟩ | ⟨m, rfl, hruns⟩)
        · exact ⟨before, m, after ++ [e], by simp, hruns⟩
        · exact ⟨es, m, [], rfl, hruns⟩
      · rintro ⟨before, m, after, heq, hruns⟩
        cases after using List.reverseRecOn with
        | nil =>
            obtain ⟨rfl, he⟩ := List.append_inj' heq rfl
            exact .inr ⟨m, List.head_eq_of_cons_eq he, hruns⟩
        | append_singleton after e' =>
            rw [← List.cons_append, ← List.append_assoc] at heq
            exact .inl ⟨before, m, after, (List.append_inj' heq rfl).1, hruns⟩

/-! ## Callers who go away -/

omit [Std.LawfulEqOrd κ]

/-- Whether an event is that one of some callers goes away. -/
def Event.isDropOf (gone : Nat → Bool) : Event κ ν → Bool
  | .drop n => gone n
  | _ => false

/-- Two lounges that differ at most in what some callers do with their tickets. -/
structure SameBut (gone : Nat → Bool) (s s' : Lounge κ ν) : Prop where
  flights : s'.flights = s.flights
  tickets : ∀ n : Nat, (s'.callers[n]?).map Prod.fst = (s.callers[n]?).map Prod.fst
  others : ∀ n : Nat, gone n = false → s'.callers[n]? = s.callers[n]?

variable {gone : Nat → Bool}

omit [Std.TransOrd κ] in
theorem SameBut.refl (gone : Nat → Bool) (s : Lounge κ ν) : SameBut gone s s :=
  ⟨rfl, fun _ ↦ rfl, fun _ _ ↦ rfl⟩

omit [Std.TransOrd κ] in
theorem SameBut.size_eq (h : SameBut gone s s') : s'.callers.size = s.callers.size := by
  have hnone : ∀ n, s'.callers.size ≤ n ↔ s.callers.size ≤ n := by
    intro n
    rw [← Array.getElem?_eq_none_iff, ← Array.getElem?_eq_none_iff,
      ← Option.map_eq_none_iff (f := Prod.fst), h.tickets, Option.map_eq_none_iff]
  have hle := hnone s.callers.size
  have hge := hnone s'.callers.size
  omega

omit [Std.TransOrd κ] in
theorem SameBut.runs (h : SameBut gone s s') : s'.Runs m c ↔ s.Runs m c := by
  have hstarted : ∀ t : Lounge κ ν, (∃ w, t.callers[m]? = some (⟨c, true⟩, w)) ↔
      (t.callers[m]?).map Prod.fst = some ⟨c, true⟩ := by
    intro t
    simp
  constructor
  · rintro ⟨hs, hr⟩
    exact ⟨(hstarted s).mpr ((h.tickets m).symm.trans ((hstarted s').mp hs)), h.flights ▸ hr⟩
  · rintro ⟨hs, hr⟩
    exact ⟨(hstarted s').mpr ((h.tickets m).trans ((hstarted s).mp hs)), h.flights.symm ▸ hr⟩

/-- The same event on both sides keeps two lounges alike. -/
theorem SameBut.step (h : SameBut gone s s') (e : Event κ ν) :
    SameBut gone (s.step e) (s'.step e) := by
  cases e with
  | join k =>
      have hsize := h.size_eq
      refine ⟨by simp [Lounge.step, join, h.flights], fun n ↦ ?_, fun n hn ↦ ?_⟩
      · simp only [Lounge.step, join, Array.getElem?_push, hsize, h.flights]
        split
        · rfl
        · exact h.tickets n
      · simp only [Lounge.step, join, Array.getElem?_push, hsize, h.flights, h.others n hn]
  | finish m o =>
      refine ⟨?_, fun n ↦ ?_, fun n hn ↦ ?_⟩
      · by_cases hruns : ∃ c, s.Runs m c
        · obtain ⟨c, hc⟩ := hruns
          simp [Lounge.step, finish_of_runs hc, finish_of_runs (h.runs.mpr hc), h.flights]
        · have hidle : ∀ c, ¬ s.Runs m c := fun c hc ↦ hruns ⟨c, hc⟩
          have hidle' : ∀ c, ¬ s'.Runs m c := fun c hc ↦ hruns ⟨c, h.runs.mp hc⟩
          simp [Lounge.step, finish_of_not_runs hidle, finish_of_not_runs hidle', h.flights]
      · rw [callers_finish, callers_finish, h.tickets]
      · rw [callers_finish, callers_finish, h.others n hn]
  | wait m =>
      refine ⟨h.flights, fun n ↦ ?_, fun n hn ↦ ?_⟩
      · exact (tickets_wait m n).trans ((h.tickets n).trans (tickets_wait m n).symm)
      · simp only [Lounge.step, wait, Array.getElem?_modify, h.others n hn]
  | drop m =>
      refine ⟨h.flights, fun n ↦ ?_, fun n hn ↦ ?_⟩
      · exact (tickets_drop m n).trans ((h.tickets n).trans (tickets_drop m n).symm)
      · simp only [Lounge.step, drop, Array.getElem?_modify, h.others n hn]

/-- A caller that goes away on one side only makes no other difference. -/
theorem SameBut.drop_left (h : SameBut gone s s') (hm : gone m = true) :
    SameBut gone (s.step (.drop m)) s' := by
  refine ⟨h.flights, fun n ↦ (h.tickets n).trans (tickets_drop m n).symm, fun n hn ↦ ?_⟩
  · have hne : m ≠ n := by
      rintro rfl
      cases hm.symm.trans hn
    rw [h.others n hn, Lounge.step, drop, Array.getElem?_modify, if_neg hne]

/-- Of a run without some callers' going away the others cannot tell the difference. -/
theorem SameBut.run_filter (h : SameBut gone s s') (es : List (Event κ ν)) :
    SameBut gone (s.run es) (s'.run (es.filter fun e ↦ !e.isDropOf gone)) := by
  induction es generalizing s s' with
  | nil => exact h
  | cons e es ih =>
      cases hdrop : e.isDropOf gone with
      | false =>
          rw [List.filter_cons_of_pos (by simp [hdrop])]
          exact ih (h.step e)
      | true =>
          rw [List.filter_cons_of_neg (by simp [hdrop])]
          cases e with
          | drop m => exact ih (h.drop_left hdrop)
          | _ => cases hdrop

omit [Std.TransOrd κ] in
theorem sight_congr (hflights : s'.flights = s.flights) (hn : s'.callers[n]? = s.callers[n]?) :
    s'.sight n = s.sight n := by
  rw [sight, sight, hflights, hn]

/-! ## What callers are told -/

omit [Std.TransOrd κ] in
theorem sight_eq_ended (h : s.callers[n]? = some (ticket, w)) :
    s.sight n = .ended o ↔ w = .waiting ∧ s.flights.outcome? ticket.call = some o := by
  cases w with
  | waiting => cases ho : s.flights.outcome? ticket.call <;> simp [sight, h, ho]
  | idle => simp [sight, h]
  | gone => simp [sight, h]

variable [Std.LawfulEqOrd κ]

/-- A caller that waits and stays is told how the work ended that it joined, and of no other. -/
theorem Sound.sight_join (h : s.Sound) (k : κ) (es : List (Event κ ν)) :
    ((s.step (.join k)).run es).sight s.callers.size = .ended o ↔
      .wait s.callers.size ∈ es ∧ .drop s.callers.size ∉ es ∧
        (s.step (.join k)).EndsIn es (s.join k).2.1.call o := by
  have hjoined := h.step (.join k)
  have hrunning : (s.step (.join k)).flights.works[(s.join k).2.1.call]? = some k :=
    h.flights.works_join k
  rw [sight_eq_ended (callers_run es (callers_join s k)), foldl_watch_idle, and_assoc]
  refine and_congr_right fun _ ↦ and_congr_right fun _ ↦ ?_
  refine hjoined.outcome?_run es |>.trans (or_iff_right fun hold ↦ ?_)
  cases (hjoined.flights.running hrunning).symm.trans hold

/-- Callers for a key share one work at a time.  After any run, the keys in flight are those with a
running work, each has one, and only a caller for another key starts a work; whoever came and waits
is told how the work ended that ran for its key then; and callers that go away, those who started a
work among them, change neither the works nor what others are told. -/
theorem callers_share_one_work (es : List (Event κ ν)) :
    let s := (∅ : Lounge κ ν).run es
    (∀ k, s.flights.isInFlight k = true ↔ ∃ c : Nat, s.flights.works[c]? = some k) ∧
    s.flights.inFlight = s.flights.works.size ∧
    (∀ (c c' : Nat) (k : κ),
      s.flights.works[c]? = some k → s.flights.works[c']? = some k → c = c') ∧
    (∀ k, (s.join k).2.1.leader = true ↔ ∀ c : Nat, s.flights.works[c]? ≠ some k) ∧
    (∀ (c : Nat) (k : κ), s.flights.works[c]? = some k → ∃ m, ∀ o, ∃ s', s.finish m o = some s' ∧
      s'.flights.works[c]? = none ∧ s'.flights.outcome? c = some o) ∧
    (∀ before k after, es = before ++ .join k :: after →
      let u := (∅ : Lounge κ ν).run before
      let n := u.callers.size
      let c := (u.join k).2.1.call
      (u.step (.join k)).flights.works[c]? = some k ∧
      ∀ o, s.sight n = .ended o ↔
        .wait n ∈ after ∧ .drop n ∉ after ∧ (u.step (.join k)).EndsIn after c o) ∧
    ∀ gone : Nat → Bool,
      let t := (∅ : Lounge κ ν).run (es.filter fun e ↦ !e.isDropOf gone)
      t.flights = s.flights ∧ ∀ n, gone n = false → t.sight n = s.sight n := by
  intro s
  have hs : s.Sound := sound_empty.run es
  refine ⟨fun k ↦ hs.flights.isInFlight_iff, hs.flights.size_eq,
    fun c c' k ↦ hs.flights.works_inj, fun k ↦ hs.flights.leader_join, fun c k hc ↦ ?_,
    fun before k after hes ↦ ?_, fun gone ↦ ?_⟩
  · obtain ⟨m, hm⟩ := hs.led hc
    refine ⟨m, fun o ↦ ⟨_, finish_of_runs hm o, ?_, Flights.outcome?_finish_self hc⟩⟩
    rw [Flights.works_finish, if_pos rfl]
  · have hu : ((∅ : Lounge κ ν).run before).Sound := sound_empty.run before
    refine ⟨hu.flights.works_join k, fun o ↦ ?_⟩
    have hrun : s = ((((∅ : Lounge κ ν).run before).step (.join k)).run after) := by
      simp only [s, hes, run_append, run_cons]
    rw [hrun]
    exact hu.sight_join k after
  · have hsame := (SameBut.refl gone (∅ : Lounge κ ν)).run_filter es
    exact ⟨hsame.flights, fun n hn ↦ sight_congr hsame.flights (hsame.others n hn)⟩

/-- The first caller leaves, and the second is told what the work came to, although a later work for
the same key has died since. -/
theorem told_after_leader_left :
    let before : List (Event Nat Nat) := [.join 3]
    let after : List (Event Nat Nat) :=
      [.drop 0, .wait 1, .finish 0 (some 7), .join 3, .finish 2 none]
    ((∅ : Lounge Nat Nat).run (before ++ .join 3 :: after)).sight 1 = .ended (some 7) := by
  intro before after
  have hjoined := (callers_share_one_work (before ++ .join 3 :: after)).2.2.2.2.2.1 before 3 after rfl
  refine (hjoined.2 (some 7)).mpr ⟨by decide, by decide, ?_⟩
  exact ⟨[.drop 0, .wait 1], 0, [.join 3, .finish 2 none], rfl, ⟨_, rfl⟩, rfl⟩

end Lounge

end GroupOffsets
