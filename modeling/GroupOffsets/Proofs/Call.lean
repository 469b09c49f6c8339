import GroupOffsets.World

/-!
# Steps of calls, and events

A call that needs a partition is in one of two places: about to ask, or waiting for a resolution.
What ends its stay there is that it is *handed* something, the partition or a failure; until then
its steps change nothing that the passes look at.

The second half says which events can touch a call at all: its own steps, and its being given up.
-/

namespace GroupOffsets

open World (Choice Event Task)

namespace Call

/-- What the call needs a partition for. -/
def purpose? : Call → Option Purpose
  | asking p | waiting p _ _ => some p
  | _ => none

/-- The partition whose resolution a call waits for. -/
def awaits? : Call → Option TopicPartition
  | waiting p _ _ => some p.target
  | _ => none

end Call

namespace Bridge

variable {b : Bridge} {order : Itinerary} {now t n d : Nat} {c : Call} {p : Purpose}
variable {r : Attempt Handle}

/-- What the next step hands to a call that needs a partition, if it ends the call's wait. -/
def handed (b : Bridge) (now : Nat) : Call → Option (Purpose × Attempt Handle)
  | .asking p => (b.cache.get? p.target).map fun h => (p, .ok h)
  | .waiting p n deadline =>
    match b.flights.outcome? n with
    | some outcome => some (p, (b.receive p.target (some outcome)).1)
    | none => if deadline ≤ now then some (p, (b.receive p.target none).1) else none
  | _ => none

theorem purpose?_of_handed (h : b.handed now c = some (p, r)) : c.purpose? = some p := by
  cases c with
  | asking q =>
      obtain ⟨_, _, heq⟩ := Option.map_eq_some_iff.mp h
      cases heq
      rfl
  | waiting q n deadline =>
      simp only [handed] at h
      split at h
      · cases h
        rfl
      · split at h
        · cases h
          rfl
        · cases h
  | _ => cases h

/-- Whether a caller is told that a partition took too long. -/
def isTimeout (r : Attempt Handle) : Bool :=
  match r with
  | .error (.resolutionTimeout ..) => true
  | _ => false

/-- Those who are told that a partition took too long are counted, and nothing else happens. -/
theorem receive_eq (tp : TopicPartition) (outcome : Option (Option Resolution)) :
    (b.receive tp outcome).2 = { b with
      metrics := if isTimeout (b.receive tp outcome).1 then b.metrics.noteResolutionTimeout
        else b.metrics } := by
  unfold receive
  split <;> rfl

/-- Only the cache and the flights decide what a call is handed. -/
theorem handed_congr {b' : Bridge} (hcache : b'.cache = b.cache)
    (hflights : b'.flights = b.flights) : b'.handed now c = b.handed now c := by
  have hreceive : ∀ tp outcome, (b'.receive tp outcome).1 = (b.receive tp outcome).1 := by
    intro tp outcome
    unfold receive
    split <;> rfl
  cases c <;> simp only [handed, hcache, hflights, hreceive]

/-- A call that is handed something goes on with it. -/
theorem stepCall_of_handed_eq (order : Itinerary) (h : b.handed now c = some (p, r)) :
    b.stepCall order now c = ({ b with
      metrics := if isTimeout r then b.metrics.noteResolutionTimeout
        else b.metrics } : Bridge).deliver order p r := by
  cases c with
  | asking q =>
      obtain ⟨cached, hget, heq⟩ := Option.map_eq_some_iff.mp h
      cases heq
      simp only [stepCall, hget]
      rfl
  | waiting q n deadline =>
      simp only [handed] at h
      split at h
      · rename_i outcome hout
        cases h
        simp only [stepCall, hout, receive_eq]
      · rename_i hout
        split at h
        · rename_i hlate
          cases h
          simp only [stepCall, hout, hlate, if_true, receive_eq]
        · cases h
  | _ => cases h

theorem stepCall_of_handed (order : Itinerary) (h : b.handed now c = some (p, r)) :
    ∃ metrics, b.stepCall order now c = ({ b with metrics } : Bridge).deliver order p r :=
  ⟨_, stepCall_of_handed_eq order h⟩

/-- A call that needs a partition and is handed nothing keeps its purpose.  At most it joins a
resolution, of a partition that is not cached. -/
theorem stepCall_of_not_handed (order : Itinerary) (hp : c.purpose? = some p)
    (h : b.handed now c = none) :
    (b.stepCall order now c).2.purpose? = some p ∧
      ((b.stepCall order now c).1 = b ∨ b.cache.get? p.target = none ∧
        (b.stepCall order now c).1 = (b.joinFlight p.target).2) := by
  cases c with
  | asking q =>
      cases hp
      have hget : b.cache.get? p.target = none := Option.map_eq_none_iff.mp h
      exact ⟨by simp only [stepCall, hget, Call.purpose?],
        .inr ⟨hget, by simp only [stepCall, hget]⟩⟩
  | waiting q n deadline =>
      cases hp
      simp only [handed] at h
      split at h
      · cases h
      · rename_i hout
        split at h
        · cases h
        · rename_i hlate
          exact ⟨by simp only [stepCall, hout, hlate, if_false, Call.purpose?],
            .inl (by simp only [stepCall, hout, hlate, if_false])⟩
  | _ => cases hp

/-! ## Waiting -/

theorem awaits?_continuePersist (before : PersistReport) (q : Progress Persist PersistReport) :
    (b.continuePersist t before q).2.awaits? = none := by
  cases q <;> rfl

theorem awaits?_continueSweep (q : Progress Sweep (List GroupTopic)) :
    (continueSweep q).awaits? = none := by
  cases q <;> rfl

theorem awaits?_continueWatermark (q : Progress Watermark PartitionOffsets) :
    (continueWatermark q).awaits? = none := by
  cases q <;> rfl

theorem awaits?_deliver (b : Bridge) (order : Itinerary) (p : Purpose) (r : Attempt Handle) :
    (b.deliver order p r).2.awaits? = none := by
  cases p with
  | persist t s => exact awaits?_continuePersist _ _
  | sweep s => exact awaits?_continueSweep _
  | watermark s => exact awaits?_continueWatermark _
  | _ => rfl

theorem awaits?_stepCall_idle (hp : c.purpose? = none) :
    (b.stepCall order now c).2.awaits? = none := by
  cases c with
  | asking p => cases hp
  | waiting p n deadline => cases hp
  | begun r =>
      cases r with
      | sweep => exact awaits?_continueSweep _
      | watermark topic excluded => exact awaits?_continueWatermark _
      | persist =>
          simp only [stepCall, beginCall]
          split
          · exact awaits?_continuePersist _ _
          · rfl
      | locateOwner tp =>
          simp only [stepCall, beginCall]
          split <;> rfl
      | _ => rfl
  | queued turn =>
      simp only [stepCall]
      split
      · exact awaits?_continuePersist _ _
      · rfl
  | sleeping upTo locating =>
      simp only [stepCall]
      split
      · split <;> rfl
      · rfl
  | answered r => rfl

theorem stepCall_asking_of_none (order : Itinerary) (now : Nat) (h : b.cache.get? p.target = none) :
    b.stepCall order now (.asking p) = ((b.joinFlight p.target).2,
      .waiting p (b.joinFlight p.target).1 (now + b.settings.callerWait)) := by
  simp only [stepCall, h, joinFlight]

/-- A call that waits has waited before, or has asked and joined a resolution. -/
theorem waiting_of_stepCall (h : (b.stepCall order now c).2 = .waiting p n d) :
    c = .waiting p n d ∨
      c = .asking p ∧ b.cache.get? p.target = none ∧
        (b.stepCall order now c).1 = (b.joinFlight p.target).2 ∧
        n = (b.joinFlight p.target).1 ∧ d = now + b.settings.callerWait := by
  have hawaits : (b.stepCall order now c).2.awaits? = some p.target := by rw [h]; rfl
  cases hp : c.purpose? with
  | none => cases (awaits?_stepCall_idle hp).symm.trans hawaits
  | some q =>
      cases hh : b.handed now c with
      | some pr =>
          obtain ⟨metrics, hb⟩ := stepCall_of_handed order hh
          rw [hb, awaits?_deliver] at hawaits
          cases hawaits
      | none =>
          cases c with
          | asking q' =>
              have hget : b.cache.get? q'.target = none := Option.map_eq_none_iff.mp hh
              rw [stepCall_asking_of_none order now hget] at h ⊢
              cases h
              exact .inr ⟨rfl, hget, rfl, rfl, rfl⟩
          | waiting q' n' d' =>
              simp only [handed] at hh
              split at hh
              · cases hh
              · rename_i hout
                split at hh
                · cases hh
                · rename_i hlate
                  simp only [stepCall, hout, hlate, if_false] at h
                  exact .inl h
          | _ => cases hp

end Bridge

namespace World

variable {w : World} {ch : Choice} {e : Event} {n : Nat} {c : Call} {es : List (Choice × Event)}

/-! ## Runs -/

@[simp] theorem steps_nil : w.steps [] = w := rfl

@[simp] theorem steps_cons : w.steps ((ch, e) :: es) = (w.step ch e).steps es := rfl

@[simp] theorem steps_append (es' : List (Choice × Event)) :
    w.steps (es ++ es') = (w.steps es).steps es' := List.foldl_append

/-- What every event keeps, every run keeps. -/
theorem steps_of_step (P : World → Prop) (hstep : ∀ w ch e, P w → P (w.step ch e)) (h : P w)
    (es : List (Choice × Event)) : P (w.steps es) := by
  induction es generalizing w with
  | nil => exact h
  | cons e es ih => exact ih (hstep w e.1 e.2 h)

/-! ## What an event does to a call -/

theorem calls_call (w : World) (r : Request) :
    (w.call r).2.calls[w.nextCall]? = some (.begun r) := Std.ExtTreeMap.getElem?_insert_self

/-- An event other than a step of a call, or the end of it, leaves the call alone. -/
theorem calls_step_of_ne (hn : n < w.nextCall) (hstep : e ≠ .step (.call n))
    (hcancel : e ≠ .cancel n) : (w.step ch e).calls[n]? = w.calls[n]? := by
  cases e with
  | operate op => rfl
  | call r =>
      simp [step, call, Std.ExtTreeMap.getElem?_insert, Std.LawfulEqCmp.compare_eq_iff_eq,
        (Nat.ne_of_lt hn).symm]
  | step task =>
      cases task with
      | flight m => rfl
      | call m =>
          have hm : m ≠ n := fun h ↦ hstep (h ▸ rfl)
          simp only [step, run]
          split
          · rfl
          · simp [Std.ExtTreeMap.getElem?_insert, Std.LawfulEqCmp.compare_eq_iff_eq, hm]
      | sweeper =>
          simp only [step, run]
          split <;> rfl
      | persister =>
          simp only [step, run]
          split <;> rfl
  | cancel m =>
      have hm : m ≠ n := fun h ↦ hcancel (h ▸ rfl)
      simp only [step, cancel]
      split
      · rfl
      · simp [Std.ExtTreeMap.getElem?_erase, Std.LawfulEqCmp.compare_eq_iff_eq, hm]
  | serve sweepEvery persistEvery => rfl
  | stop => rfl
  | elapse ms => rfl

theorem calls_cancel : (w.step ch (.cancel n)).calls[n]? = none := by
  simp only [step, cancel]
  split
  · assumption
  · simp

theorem run_call_of_some (h : w.calls[n]? = some c) :
    w.run ch (.call n) = { w with
      bridge := (w.bridge.stepCall ch.order w.now c).1
      calls := w.calls.insert n (w.bridge.stepCall ch.order w.now c).2 } := by
  simp only [run, h]

theorem calls_run_call (h : w.calls[n]? = some c) :
    (w.run ch (.call n)).calls[n]? = some (w.bridge.stepCall ch.order w.now c).2 := by
  rw [run_call_of_some h]
  exact Std.ExtTreeMap.getElem?_insert_self

theorem bridge_run_call (h : w.calls[n]? = some c) :
    (w.run ch (.call n)).bridge = (w.bridge.stepCall ch.order w.now c).1 := by
  rw [run_call_of_some h]

theorem run_call_of_none (h : w.calls[n]? = none) : w.run ch (.call n) = w := by
  simp only [run, h]

/-- A call that needs a partition waits on, or goes on with what it is handed. -/
theorem run_call_of_purpose {p : Purpose} (ch : Choice) (hc : w.calls[n]? = some c)
    (hp : c.purpose? = some p) :
    w.bridge.handed w.now c = none ∧ (w.run ch (.call n)).bridge.table = w.bridge.table ∧
        (w.run ch (.call n)).bridge.subscriptions = w.bridge.subscriptions ∧
        (∃ c', (w.run ch (.call n)).calls[n]? = some c' ∧ c'.purpose? = some p) ∨
      ∃ r metrics, w.bridge.handed w.now c = some (p, r) ∧
        (w.run ch (.call n)).bridge =
          (({ w.bridge with metrics } : Bridge).deliver ch.order p r).1 ∧
        (w.run ch (.call n)).calls[n]? =
          some (({ w.bridge with metrics } : Bridge).deliver ch.order p r).2 := by
  rw [calls_run_call hc, bridge_run_call hc]
  cases hh : w.bridge.handed w.now c with
  | none =>
      obtain ⟨hp', hb⟩ := Bridge.stepCall_of_not_handed ch.order hp hh
      refine .inl ⟨rfl, ?_, ?_, _, rfl, hp'⟩ <;> rcases hb with hb | ⟨-, hb⟩ <;> rw [hb] <;> rfl
  | some pr =>
      obtain ⟨q, r⟩ := pr
      cases (Bridge.purpose?_of_handed hh).symm.trans hp
      obtain ⟨metrics, hb⟩ := Bridge.stepCall_of_handed ch.order hh
      exact .inr ⟨r, metrics, rfl, congrArg Prod.fst hb, congrArg (some ·.2) hb⟩

/-- The numbers of calls are not given twice. -/
theorem nextCall_le_step : w.nextCall ≤ (w.step ch e).nextCall := by
  cases e with
  | operate op => exact Nat.le_refl _
  | call r => exact Nat.le_succ _
  | step task =>
      cases task <;> simp only [step, run]
      · exact Nat.le_refl _
      all_goals split <;> exact Nat.le_refl _
  | cancel m =>
      simp only [step, cancel]
      split <;> exact Nat.le_refl _
  | serve sweepEvery persistEvery => exact Nat.le_refl _
  | stop => exact Nat.le_refl _
  | elapse ms => exact Nat.le_refl _

theorem nextCall_le_steps : w.nextCall ≤ (w.steps es).nextCall := by
  induction es generalizing w with
  | nil => exact Nat.le_refl _
  | cons e es ih => exact Nat.le_trans nextCall_le_step ih

theorem lt_nextCall_steps_call {r : Request} :
    w.nextCall < ((w.call r).2.steps es).nextCall := by
  have h : (w.call r).2.nextCall ≤ ((w.call r).2.steps es).nextCall := nextCall_le_steps
  exact h

end World

end GroupOffsets
