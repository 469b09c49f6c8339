import Mathlib.Data.List.Induction
import GroupOffsets.Proofs.Rounds

/-!
# Callers of a resolution

Whoever needs a partition takes the cached handle, or joins a resolution and waits for it.
`World.Told` has all that a caller can be told, and what is behind it: an outcome that the lookups
of the resolution account for, or the end of the caller's wait.
-/

namespace GroupOffsets

open World (Choice Event Task)

namespace Flight

variable {cfg : Backoff.Config} {tp : TopicPartition} {now begun : Nat} {ts : List Trial}
  {f : Flight}

theorem Course.target (h : Course cfg tp now ts begun f) : f.target = tp := by
  cases h with
  | boarding _ target => exact target
  | locating _ target => exact target
  | pausing _ target => exact target

end Flight

namespace Bridge

variable {b : Bridge} {cfg : Backoff.Config} {tp tp' : TopicPartition} {now n : Nat}
  {log : Flight.Log}

/-- The partition of a resolution that runs is the one that it was asked for. -/
theorem Fares.target_eq (h : Fares cfg tp b now n log) (hb : b.Aboard)
    (hworks : b.flights.works[n]? = some tp') : tp = tp' := by
  cases h with
  | aloft aloft course =>
      rw [← course.target]
      exact Option.some.inj ((hb.works_eq aloft).symm.trans hworks)
  | landed outcome ends => cases (hb.sound.running hworks).symm.trans outcome

end Bridge

namespace Call

variable {b : Bridge} {order : Itinerary} {now : Nat} {c : Call} {tp : TopicPartition}
  {told told' : Attempt Handle → Prop}

/-- A call for a partition, which is answered only with what is told. -/
inductive Seeks (tp : TopicPartition) (told : Attempt Handle → Prop) : Call → Prop
  | begun : Seeks tp told (.begun (.resolve tp))
  | needs {c : Call} (purpose : c.purpose? = some (.resolve tp)) : Seeks tp told c
  | answered {r : Attempt Handle} (was_told : told r) :
      Seeks tp told (.answered (.ofAttempt (fun h ↦ .handle (some h)) r))

theorem Seeks.mono (h : c.Seeks tp told) (htold : ∀ r, told r → told' r) : c.Seeks tp told' := by
  cases h with
  | begun => exact .begun
  | needs purpose => exact .needs purpose
  | answered was_told => exact .answered (htold _ was_told)

theorem Seeks.stepCall (h : c.Seeks tp told)
    (htold : ∀ r, b.handed now c = some (.resolve tp, r) → told r) (order : Itinerary) :
    (b.stepCall order now c).2.Seeks tp told := by
  cases h with
  | begun => exact .needs rfl
  | needs purpose =>
      cases hh : b.handed now c with
      | some pr =>
          obtain ⟨p, r⟩ := pr
          cases (Bridge.purpose?_of_handed hh).symm.trans purpose
          obtain ⟨metrics, hstep⟩ := Bridge.stepCall_of_handed order hh
          rw [hstep]
          exact .answered (htold r hh)
      | none => exact .needs (Bridge.stepCall_of_not_handed order purpose hh).1
  | answered was_told => exact .answered was_told

theorem Seeks.told_of_reply {reply : Reply Handle} (h : c.Seeks tp told)
    (hreply : c.reply? = some reply) :
    ∃ r, told r ∧ reply = .ofAttempt (fun h ↦ .handle (some h)) r := by
  cases h with
  | begun => cases hreply
  | needs purpose => cases c <;> cases purpose <;> cases hreply
  | answered was_told =>
      cases hreply
      exact ⟨_, was_told, rfl⟩

/-- Who asks for a partition comes to this one only. -/
def Measure.single : Measure where
  request _
    | .resolve _ => some 1
    | _ => none
  purpose _
    | .resolve _ => some 0
    | _ => none

theorem Measure.falls_single : single.Falls where
  beginCall {b r l} order now hl := by
    cases r with
    | resolve tp =>
        cases hl
        exact .inr ⟨_, 0, rfl, rfl, Nat.zero_lt_one⟩
    | _ => cases hl
  deliver {b p l} order r hl := by
    cases p with
    | resolve tp => exact .inl ⟨_, rfl⟩
    | _ => cases hl

theorem Measure.bears_single (t t' : OffsetTable) : single.Bears t t' where
  request hl := ⟨_, Nat.le_refl _, hl⟩
  purpose hl := ⟨_, Nat.le_refl _, hl⟩

end Call

namespace World

open Flight (Ends)

variable {w : World} {ch : Choice} {e : Event} {es es' : List (Choice × Event)} {τ : Task}
  {p : Purpose} {tp : TopicPartition} {n d m k since : Nat} {o : Option Resolution}
  {r : Attempt Handle} {c : Call}

/-! ## What callers are told -/

/-- The resolution of a partition has ended in a run, as its log says. -/
structure Ended (w : World) (es : List (Choice × Event)) (n : Nat) (tp : TopicPartition)
    (o : Option Resolution) : Prop where
  outcome : (w.steps es).bridge.flights.outcome? n = some o
  ends : Ends w.bridge.settings.retry tp (log n w es) o

/-- A task is about to ask for a partition. -/
def Asks (w : World) (τ : Task) (tp : TopicPartition) : Prop :=
  ∃ p, p.target = tp ∧ w.callOf τ = some (.asking p)

/-- A task that asks for a partition which is not cached joins the resolution with number `n`. -/
structure Joins (w : World) (τ : Task) (tp : TopicPartition) (n : Nat) : Prop where
  asks : w.Asks τ tp
  missing : w.bridge.cache.get? tp = none
  joined : (w.bridge.joinFlight tp).1 = n

/-- What is told of a resolution to those who have waited for it since then. -/
inductive Tells (w : World) (es : List (Choice × Event)) (n : Nat) (tp : TopicPartition)
    (since : Nat) : Attempt Handle → Prop
  | found {h : Handle} (ended : w.Ended es n tp (some (.found h))) : Tells w es n tp since (.ok h)
  | absent (ended : w.Ended es n tp (some .notFound)) :
      Tells w es n tp since (.error (.unknownPartition tp.text))
  | exhausted {attempts : Nat} (ended : w.Ended es n tp (some (.exhausted attempts))) :
      Tells w es n tp since (.error (.resolutionTimeout tp.topic tp.partition))
  | died (ended : w.Ended es n tp none) :
      Tells w es n tp since (.error (.resolutionTimeout tp.topic tp.partition))
  /-- The wait is over first, and the resolution goes on. -/
  | late {f : Flight} (aloft : (w.steps es).bridge.aloft[n]? = some f) (target : f.target = tp)
      (waited : since + w.bridge.settings.callerWait ≤ (w.steps es).now) :
      Tells w es n tp since (.error (.resolutionTimeout tp.topic tp.partition))

/-- What a task is told that needs a partition. -/
inductive Told (w : World) (es : List (Choice × Event)) (τ : Task) (tp : TopicPartition) :
    Attempt Handle → Prop
  | cached {h : Handle} (asks : (w.steps es).Asks τ tp)
      (cached : (w.steps es).bridge.cache.get? tp = some h) : Told w es τ tp (.ok h)
  | waited {before after : List (Choice × Event)} {ch : Choice} {n : Nat} {r : Attempt Handle}
      (run : es = before ++ (ch, .step τ) :: after) (joins : (w.steps before).Joins τ tp n)
      (tells : w.Tells es n tp (w.steps before).now r) : Told w es τ tp r

/-! ## Waiting for a resolution -/

/-- A task waits for the resolution that it has joined in a run. -/
structure Awaits (w : World) (es : List (Choice × Event)) (τ : Task) (p : Purpose) (n d : Nat) :
    Prop where
  old : n < (w.steps es).bridge.flights.next
  fares : (w.steps es).bridge.Fares w.bridge.settings.retry p.target (w.steps es).now n
    (log n w es)
  joined : ∃ before ch after, es = before ++ (ch, .step τ) :: after ∧
    (w.steps before).Joins τ p.target n ∧
    d = (w.steps before).now + w.bridge.settings.callerWait

/-- A world in which no partition was asked for yet. -/
structure Unasked (w : World) : Prop where
  aboard : w.Aboard
  next : w.bridge.flights.next = 0
  calls : ∀ τ, w.callOf τ = none

theorem unasked_new (settings : Bridge.Settings) (store : Store) (manualClock : Option Nat)
    (now : Nat) : (new now (.new settings store manualClock)).Unasked where
  aboard := aboard_new (Bridge.aboard_new settings store manualClock) now
  next := rfl
  calls τ := by
    cases τ with
    | call n => exact Std.ExtTreeMap.getElem?_empty
    | _ => rfl

theorem Unasked.begun (h : w.Unasked) (hn : n < (w.steps es).bridge.flights.next) :
    (w.steps es).Begun w.bridge.settings.retry n :=
  ⟨aboard_steps h.aboard es, hn, by rw [settings_steps]⟩

theorem Unasked.fares (h : w.Unasked) (hn : n < (w.steps es).bridge.flights.next) :
    ∃ tp, (w.steps es).bridge.Fares w.bridge.settings.retry tp (w.steps es).now n (log n w es) :=
  exists_fares h.aboard (h.next ▸ Nat.zero_le n) hn

/-- The times of the settings are too short for a resolution to break down when it asks for a delay,
as long as its clock can show the time. -/
theorem next?_of_departed {f : Flight} {clock : Nat} (config : Config) (store : Store)
    (manualClock : Option Nat) (now : Nat)
    (hf : ((new now (.new config.settings store manualClock)).steps es).bridge.aloft[n]? = some f)
    (hdeparted : f.phase ≠ .boarding) (hclock : clock < Backoff.clockBound) (draw : Option Nat) :
    f.backoff.next? config.retry draw clock = some (f.backoff.next config.retry draw clock) := by
  have hw := unasked_new config.settings store manualClock now
  have haboard := (aboard_steps hw.aboard es).bridge
  obtain ⟨tp, hfares⟩ := hw.fares (haboard.sound.works_old (haboard.works_eq hf))
  obtain ⟨f', hf', hcourse⟩ := hfares.course (haboard.sound.running (haboard.works_eq hf))
  cases hf.symm.trans hf'
  exact (hcourse.ranges hdeparted).next?_eq (Backoff.narrow_retry config) hclock draw

/-- Whoever waits for a resolution still does when something else happens. -/
theorem Awaits.concat (h : w.Awaits es τ p n d) (hw : w.Unasked) (ch : Choice) (e : Event) :
    w.Awaits (es ++ [(ch, e)]) τ p n d := by
  obtain ⟨before, ch', after, rfl, hjoins, hd⟩ := h.joined
  refine ⟨?_, ?_, before, ch', after ++ [(ch, e)], by simp, hjoins, hd⟩
  · rw [steps_append]
    exact Nat.lt_of_lt_of_le h.old (next_le_step _ ch e)
  · rw [steps_append, log_append]
    exact (hw.begun h.old).fares_steps h.fares [(ch, e)]

/-- Whoever joins a resolution waits for one of the partition that is needed. -/
theorem awaits_of_joins (hw : w.Unasked) (hc : (w.steps es).callOf τ = some (.asking p))
    (hmissing : (w.steps es).bridge.cache.get? p.target = none) (ch : Choice)
    (hbridge : ((w.steps es).step ch (.step τ)).bridge =
      ((w.steps es).bridge.joinFlight p.target).2) :
    w.Awaits (es ++ [(ch, .step τ)]) τ p ((w.steps es).bridge.joinFlight p.target).1
      ((w.steps es).now + w.bridge.settings.callerWait) := by
  have haboard := aboard_steps hw.aboard es
  have hbridge' : (w.steps (es ++ [(ch, .step τ)])).bridge =
      ((w.steps es).bridge.joinFlight p.target).2 := by rw [steps_append, ← hbridge]; rfl
  have hold := (haboard.bridge.boards_join p).old
  rw [← hbridge'] at hold
  obtain ⟨tp, hfares⟩ := hw.fares hold
  have hworks := haboard.bridge.sound.works_join p.target
  have htp : tp = p.target := by
    refine hfares.target_eq (aboard_steps hw.aboard _).bridge ?_
    rw [hbridge']
    exact hworks
  exact ⟨hold, htp ▸ hfares, es, ch, [], rfl, ⟨⟨p, rfl, hc⟩, hmissing, rfl⟩, rfl⟩

/-- Whoever waits in a run waits for a resolution that was joined. -/
theorem Unasked.awaits (hw : w.Unasked) (hc : (w.steps es).callOf τ = some (.waiting p n d)) :
    w.Awaits es τ p n d := by
  -- from the end of the run: the last event is the joining, or the task waited before it
  induction es using List.reverseRecOn generalizing n d with
  | nil => cases (hw.calls τ).symm.trans hc
  | append_singleton es e ih =>
      obtain ⟨ch, e⟩ := e
      rw [steps_append] at hc
      obtain hwaits | ⟨rfl, hasks, hmissing, hbridge, rfl, rfl⟩ := waiting_step_cases hc
      · exact (ih hwaits).concat hw ch e
      · rw [settings_steps]
        exact awaits_of_joins hw hasks hmissing ch hbridge

/-- What a resolution that was joined has come to is told. -/
theorem Awaits.tells (h : w.Awaits es τ p n d) (hw : w.Unasked)
    (ho : (w.steps es).bridge.flights.outcome? n = some o) (since : Nat) :
    w.Tells es n p.target since ((w.steps es).bridge.receive p.target (some o)).1 := by
  have hended : w.Ended es n p.target o := ⟨ho, h.fares.ends (aboard_steps hw.aboard es).bridge ho⟩
  match o with
  | some (.found h) => exact .found hended
  | some .notFound => exact .absent hended
  | some (.exhausted attempts) => exact .exhausted hended
  | none => exact .died hended

/-- Whoever waits for a resolution is told what it has come to, or that the wait is over. -/
theorem Unasked.told (hw : w.Unasked) (hc : (w.steps es).callOf τ = some c)
    (hh : (w.steps es).bridge.handed (w.steps es).now c = some (p, r)) :
    w.Told es τ p.target r := by
  cases c with
  | asking q =>
      obtain ⟨h, hget, heq⟩ := Option.map_eq_some_iff.mp hh
      cases heq
      exact .cached ⟨p, rfl, hc⟩ hget
  | waiting q n d =>
      have hawaits := hw.awaits hc
      obtain ⟨before, ch, after, hes, hjoins, hd⟩ := hawaits.joined
      simp only [Bridge.handed] at hh
      split at hh
      · rename_i o ho
        cases hh
        exact .waited hes hjoins (hawaits.tells hw ho _)
      · rename_i ho
        split at hh
        · rename_i hlate
          cases hh
          obtain ⟨f, hf, hcourse⟩ := hawaits.fares.course ho
          exact .waited hes hjoins (.late hf hcourse.target (hd ▸ hlate))
        · cases hh
  | _ => cases hh

/-! ## Calls for a partition -/

/-- What was told at some time in a run. -/
def EverTold (w : World) (es : List (Choice × Event)) (τ : Task) (tp : TopicPartition)
    (r : Attempt Handle) : Prop :=
  ∃ before after, es = before ++ after ∧ w.Told before τ tp r

theorem EverTold.concat (h : w.EverTold es τ tp r) (es' : List (Choice × Event)) :
    w.EverTold (es ++ es') τ tp r := by
  obtain ⟨before, after, rfl, htold⟩ := h
  exact ⟨before, after ++ es', by simp, htold⟩

/-- A call for a partition is answered only with what it was told. -/
theorem Unasked.seeks (hw : w.Unasked) (es : List (Choice × Event)) (ch : Choice)
    (tp : TopicPartition) (es' : List (Choice × Event))
    (hc : (w.steps (es ++ (ch, .call (.resolve tp)) :: es')).calls[(w.steps es).nextCall]? =
      some c) : c.Seeks tp
        (w.EverTold (es ++ (ch, .call (.resolve tp)) :: es') (.call (w.steps es).nextCall) tp) := by
  induction es' using List.reverseRecOn generalizing c with
  | nil =>
      rw [steps_append, steps_cons, steps_nil, step, calls_call] at hc
      cases hc
      exact .begun
  | append_singleton es' e ih =>
      obtain ⟨ch', e⟩ := e
      rw [← List.cons_append, ← List.append_assoc] at hc ⊢
      generalize hrun : es ++ (ch, .call (.resolve tp)) :: es' = run at hc ih ⊢
      have hn : (w.steps es).nextCall < (w.steps run).nextCall := by
        rw [← hrun, steps_append]
        exact lt_nextCall_steps_call
      generalize (w.steps es).nextCall = m at hc ih hn ⊢
      -- only its own steps answer a call, and each of them with what is told at that moment
      rw [steps_append, steps_cons, steps_nil] at hc
      by_cases hstep : e = .step (.call m)
      · subst hstep
        cases hwas : (w.steps run).calls[m]? with
        | none =>
            rw [step, run_call_of_none hwas, hwas] at hc
            cases hc
        | some c' =>
            rw [step, calls_run_call hwas] at hc
            cases hc
            refine ((ih hwas).mono fun r hr ↦ hr.concat _).stepCall (fun r hh ↦ ?_) ch'.order
            exact ⟨run, _, rfl, hw.told (τ := .call m) hwas hh⟩
      · by_cases hcancel : e = .cancel m
        · subst hcancel
          cases calls_cancel.symm.trans hc
        · rw [calls_step_of_ne hn hstep hcancel] at hc
          exact (ih hc).mono fun r hr ↦ hr.concat _

/-! ## Calls are answered -/

theorem nearsReply_call (w : World) (tp : TopicPartition) :
    (w.call (.resolve tp)).2.NearsReply .single w.nextCall 3 :=
  nearsReply_call_of_measure (l := 1) rfl

/-- A call for a partition that is run often enough is answered. -/
theorem NearsReply.exists_reply (h : w.NearsReply .single m k)
    (hkept : ∀ ch, (ch, .cancel m) ∉ es)
    (hes : Attends (.call m) w.bridge.settings.callerWait k es) :
    ∃ reply, (w.steps es).reply? m = some reply :=
  h.exists_reply_of_bears Call.Measure.falls_single
    (bears_of_kept Call.Measure.bears_single hkept) hes

/-! ## Faults -/

/-- A resolution that is run often enough ends as its log says. -/
theorem Unasked.exists_ended (hw : w.Unasked) (hn : n < (w.steps es).bridge.flights.next)
    (hfares : (w.steps es).bridge.Fares w.bridge.settings.retry tp (w.steps es).now n
      (log n w es))
    (hes : Attends (.flight n) (Flight.longestWait w.bridge.settings.retry)
      (2 * (w.bridge.settings.retry.maxAttempts + 1)) es') : ∃ o, w.Ended (es ++ es') n tp o := by
  have hbegun := hw.begun hn
  have hnears := exists_nears hw.aboard (hw.next ▸ Nat.zero_le n) hn
  obtain ⟨o, ho⟩ := lands_of_attends hnears hbegun hes
  have hends := (hbegun.fares_steps hfares es').ends (hbegun.steps es').aboard.bridge ho
  refine ⟨o, by rwa [steps_append], ?_⟩
  rwa [log_append]

/-- Whatever the lookups come to, a resolution begins no more of them than the schedule has delays,
and one; it ends with what the first of them says that does not fail, or when no delay is left.
Whoever needs a partition is told of the outcome, or that the wait was too long: a failure of the
store is never passed on, nor taken for the answer that there is no partition. -/
theorem resolution_outlives_faults (settings : Bridge.Settings) (store : Store)
    (manualClock : Option Nat) (now : Nat) (es : List (Choice × Event)) :
    let w := new now (.new settings store manualClock)
    (∀ n, n < (w.steps es).bridge.flights.next → ∃ tp,
      (w.steps es).bridge.Fares settings.retry tp (w.steps es).now n (log n w es) ∧
      (log n w es).begun ≤ settings.retry.maxAttempts + 1 ∧
      ∀ es', Attends (.flight n) (Flight.longestWait settings.retry)
        (2 * (settings.retry.maxAttempts + 1)) es' → ∃ o, w.Ended (es ++ es') n tp o) ∧
    (∀ τ c p r, (w.steps es).callOf τ = some c →
      (w.steps es).bridge.handed (w.steps es).now c = some (p, r) → w.Told es τ p.target r) ∧
    ∀ ch tp es',
      let m := (w.steps es).nextCall
      let run := es ++ (ch, .call (.resolve tp)) :: es'
      (∀ reply, (w.steps run).reply? m = some reply → ∃ r, w.EverTold run (.call m) tp r ∧
        reply = .ofAttempt (fun h ↦ .handle (some h)) r) ∧
      (Attends (.call m) settings.callerWait 3 es' → (∀ ch', (ch', .cancel m) ∉ es') →
        ∃ reply, (w.steps run).reply? m = some reply) := by
  intro w
  have hw : w.Unasked := unasked_new settings store manualClock now
  refine ⟨fun n hn ↦ ?_, fun τ c p r hc hh ↦ hw.told hc hh, fun ch tp es' ↦ ⟨?_, ?_⟩⟩
  · obtain ⟨tp, hfares⟩ := hw.fares hn
    exact ⟨tp, hfares, hfares.begun_le, fun es' hes' ↦ hw.exists_ended hn hfares hes'⟩
  · intro reply hreply
    obtain ⟨c, hc, hcr⟩ := Option.bind_eq_some_iff.mp hreply
    exact (hw.seeks es ch tp es' hc).told_of_reply hcr
  · intro hattends hkept
    have hwait : ((w.steps es).call (.resolve tp)).2.bridge.settings.callerWait =
        settings.callerWait := congrArg Bridge.Settings.callerWait settings_steps
    rw [steps_append, steps_cons]
    exact (nearsReply_call (w.steps es) tp).exists_reply hkept (hwait.symm ▸ hattends)

/-- A world in which one delay is granted after a lookup that fails. -/
def impatient : World := new 0 (.new ⟨[], ⟨1, 1, 10, 1⟩, 10⟩ (.new "node" ∅) none)

/-- Two lookups are told to fail, and a partition is asked for. -/
def outage : List (Choice × Event) :=
  (.plain, .operate (.failNext 2)) :: (.plain, .call (.resolve ⟨"t", 0⟩)) ::
    rounds [.call 0, .call 0, .flight 0, .flight 0, .flight 0, .flight 0, .call 0]

theorem outage_told_as_timeout :
    (∃ tp, impatient.Ended outage 0 tp (some (.exhausted 1))) ∧
      impatient.EverTold outage (.call 0) ⟨"t", 0⟩ (.error (.resolutionTimeout "t" 0)) := by
  have again : ∀ {τ k} (before : List (Choice × Event)) {after}, 10 ≤ elapsed before →
      Attends τ 10 k after → Attends τ 10 (k + 1) (before ++ (.plain, .step τ) :: after) :=
    fun _ _ hwaited hafter ↦ .again hwaited hafter
  have houtcome : (impatient.steps outage).bridge.flights.outcome? 0 =
      some (some (.exhausted 1)) := rfl
  have hreply : (impatient.steps outage).reply? 0 =
      some (.failed (.resolutionTimeout "t" 0)) := rfl
  have hresolution := resolution_outlives_faults ⟨[], ⟨1, 1, 10, 1⟩, 10⟩ (.new "node" ∅) none 0
  constructor
  · obtain ⟨tp, -, -, hends⟩ := (hresolution ((.plain, .operate (.failNext 2)) ::
      (.plain, .call (.resolve ⟨"t", 0⟩)) :: rounds [.call 0, .call 0])).1 0 (by decide)
    obtain ⟨o, hended⟩ := hends (rounds [.flight 0, .flight 0, .flight 0, .flight 0, .call 0]) <|
      again [(.plain, .elapse 10)] (by decide) <| again [(.plain, .elapse 10)] (by decide) <|
      again [(.plain, .elapse 10)] (by decide) <| again [(.plain, .elapse 10)] (by decide) .never
    change impatient.Ended outage 0 tp o at hended
    cases Option.some.inj (hended.outcome.symm.trans houtcome)
    exact ⟨tp, hended⟩
  · obtain ⟨htold, hanswered⟩ := (hresolution [(.plain, .operate (.failNext 2))]).2.2
      .plain ⟨"t", 0⟩
      (rounds [.call 0, .call 0, .flight 0, .flight 0, .flight 0, .flight 0, .call 0])
    obtain ⟨reply, hreply'⟩ := hanswered
      (again [(.plain, .elapse 10)] (by decide) <| again [(.plain, .elapse 10)] (by decide) <|
        again (rounds [.flight 0, .flight 0, .flight 0, .flight 0] ++ [(.plain, .elapse 10)])
          (by decide) .never) (by simp [rounds])
    obtain ⟨r, hr, hfailed⟩ := htold reply hreply'
    change (impatient.steps outage).reply? 0 = some reply at hreply'
    cases Option.some.inj (hreply'.symm.trans hreply)
    cases r with
    | ok h => cases hfailed
    | error e =>
        cases hfailed
        exact hr

end World

end GroupOffsets
