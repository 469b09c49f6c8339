import GroupOffsets.Proofs.Call
import GroupOffsets.Proofs.Move
import GroupOffsets.Proofs.Store

/-!
# What steps leave alone

Neither a step of a call nor one of a resolution touches the settings of a bridge or its
subscriptions.  Who subscribes is decided by the operations that say so, and by nothing else.
-/

namespace GroupOffsets

open World (Choice Event)

namespace Bridge

variable {b' b'' : Bridge} (b : Bridge) (order : Itinerary) (now n : Nat) (draw : Option Nat)

/-- Two bridges on the same terms: set up alike, and with the same subscriptions. -/
structure SameTerms (b b' : Bridge) : Prop where
  settings : b'.settings = b.settings
  subscriptions : b'.subscriptions = b.subscriptions

variable {b} in
theorem SameTerms.refl : SameTerms b b := ⟨rfl, rfl⟩

/-! ## Calls -/

theorem moveCursor_eq (r : Attempt Handle) (group : String) (x : Position) :
    ∃ store, (b.moveCursor r group x).2 = { b with store } := by
  unfold moveCursor
  split
  · exact ⟨_, rfl⟩
  · split <;> exact ⟨_, rfl⟩

theorem continuePersist_eq (turn : Nat) (before : PersistReport)
    (p : Progress Persist PersistReport) : ∃ metrics persistTurn,
      (b.continuePersist turn before p).1 = { b with metrics, persistTurn } := by
  cases p <;> exact ⟨_, _, rfl⟩

/-- What a delivery can change. -/
theorem deliver_eq (p : Purpose) (r : Attempt Handle) : ∃ store table metrics persistTurn,
    (b.deliver order p r).1 = { b with store, table, metrics, persistTurn } := by
  cases p with
  | persist turn s =>
      obtain ⟨store, hb⟩ := b.moveCursor_eq r s.key.group s.position
      obtain ⟨metrics, persistTurn, hb'⟩ :=
        (b.moveCursor r s.key.group s.position).2.continuePersist_eq turn s.report
          (s.answer order (b.moveCursor r s.key.group s.position).2.table
            (b.moveCursor r s.key.group s.position).2.isSystemGroup
            (b.moveCursor r s.key.group s.position).1)
      exact ⟨store, b.table, metrics, persistTurn, hb'.trans (by rw [hb])⟩
  | _ => exact ⟨_, _, _, _, rfl⟩

theorem ownerAnswers_eq (tp : TopicPartition) : ∃ failing,
    (b.ownerAnswers tp).1 = { b with store := { b.store with failing } } := by
  obtain ⟨failing, hs⟩ := b.store.locateOwner_eq tp
  exact ⟨failing, by rw [← hs]; rfl⟩

/-- What a step of a call that needs no partition can change. -/
theorem stepCall_idle_eq {c : Call} (hp : c.purpose? = none) :
    ∃ failing lookups metrics persistTurn, (b.stepCall order now c).1 =
      { b with store := { b.store with failing, lookups }, metrics, persistTurn } := by
  cases c with
  | asking p => cases hp
  | waiting p n deadline => cases hp
  | begun r =>
      simp only [stepCall]
      cases r with
      | persist =>
          simp only [beginCall]
          split
          · obtain ⟨metrics, persistTurn, hb⟩ := continuePersist_eq
              { b with persistTurn := b.persistTurn.enter.2 } b.persistTurn.enter.1 ∅
              (Persist.start order b.table b.isSystemGroup)
            exact ⟨_, _, metrics, persistTurn, hb⟩
          · exact ⟨_, _, _, _, rfl⟩
      | locateOwner tp =>
          simp only [beginCall]
          split
          · obtain ⟨failing, hb⟩ := ownerAnswers_eq { b with store := b.store.beginLookup } tp
            exact ⟨failing, _, _, _, hb⟩
          · exact ⟨_, _, _, _, rfl⟩
      | _ => exact ⟨_, _, _, _, rfl⟩
  | queued turn =>
      simp only [stepCall]
      split
      · obtain ⟨metrics, persistTurn, hb⟩ := b.continuePersist_eq turn ∅
          (Persist.start order b.table b.isSystemGroup)
        exact ⟨_, _, metrics, persistTurn, hb⟩
      · exact ⟨_, _, _, _, rfl⟩
  | sleeping upTo locating =>
      simp only [stepCall]
      split
      · split
        · obtain ⟨failing, hb⟩ := b.ownerAnswers_eq _
          exact ⟨failing, _, _, _, hb⟩
        · exact ⟨_, _, _, _, rfl⟩
      · exact ⟨_, _, _, _, rfl⟩
  | answered r => exact ⟨_, _, _, _, rfl⟩

/-- What a step of a call can change. -/
theorem stepCall_eq (c : Call) : ∃ store flights aloft table metrics persistTurn,
    (b.stepCall order now c).1 = { b with store, flights, aloft, table, metrics, persistTurn } := by
  cases hp : c.purpose? with
  | none =>
      obtain ⟨_, _, _, _, hb⟩ := b.stepCall_idle_eq order now hp
      exact ⟨_, _, _, _, _, _, hb⟩
  | some p =>
      cases hh : b.handed now c with
      | some pr =>
          obtain ⟨metrics, hb⟩ := stepCall_of_handed order hh
          obtain ⟨store, table, metrics, persistTurn, hb'⟩ :=
            deliver_eq { b with metrics } order pr.1 pr.2
          exact ⟨store, b.flights, b.aloft, table, metrics, persistTurn, by rw [hb, hb']⟩
      | none =>
          obtain ⟨-, hb | ⟨-, hb⟩⟩ := stepCall_of_not_handed order hp hh
          · exact ⟨_, _, _, _, _, _, hb⟩
          · exact ⟨_, _, _, _, _, _, hb⟩

theorem sameTerms_stepCall (c : Call) : SameTerms b (b.stepCall order now c).1 := by
  obtain ⟨_, _, _, _, _, _, hb⟩ := b.stepCall_eq order now c
  exact hb ▸ ⟨rfl, rfl⟩

@[simp] theorem cache_stepCall (c : Call) : (b.stepCall order now c).1.cache = b.cache := by
  obtain ⟨_, _, _, _, _, _, hb⟩ := b.stepCall_eq order now c
  rw [hb]

theorem cancelCall_eq (c : Call) : ∃ persistTurn, b.cancelCall c = { b with persistTurn } := by
  unfold cancelCall
  split <;> exact ⟨_, rfl⟩

/-! ## Resolutions -/

theorem conclude_eq (f : Flight) (l : Option Lookup) : ∃ cache flights aloft metrics,
    b.conclude draw now n f l = { b with cache, flights, aloft, metrics } := by
  unfold conclude
  split <;> exact ⟨_, _, _, _, rfl⟩

theorem answerLookup_eq (f : Flight) : ∃ failing lookups nextWrapper cache flights aloft metrics,
    b.answerLookup draw now n f = { b with
      store := { b.store with failing, lookups, nextWrapper }, cache, flights, aloft, metrics } := by
  obtain ⟨failing, nextWrapper, hs⟩ := b.store.lookup_eq f.target
  obtain ⟨cache, flights, aloft, metrics, hb⟩ := conclude_eq
    { b with store := (b.store.lookup f.target).2 } now n draw f (some (b.store.lookup f.target).1)
  refine ⟨failing, b.store.lookups, nextWrapper, cache, flights, aloft, metrics, ?_⟩
  rw [answerLookup]
  dsimp only
  rw [hb, hs]

theorem beginLookup_eq (f : Flight) : ∃ failing lookups nextWrapper cache flights aloft metrics,
    b.beginLookup draw now n f = { b with
      store := { b.store with failing, lookups, nextWrapper }, cache, flights, aloft, metrics } := by
  unfold beginLookup
  dsimp only
  split
  · obtain ⟨_, _, _, _, _, _, _, hb⟩ :=
      answerLookup_eq { b with store := b.store.beginLookup } now n draw f
    exact ⟨_, _, _, _, _, _, _, hb⟩
  · exact ⟨_, _, _, _, _, _, _, rfl⟩

/-- What a step of a resolution can change. -/
theorem stepFlight_eq : ∃ failing lookups nextWrapper cache flights aloft metrics,
    b.stepFlight draw now n = { b with
      store := { b.store with failing, lookups, nextWrapper }, cache, flights, aloft, metrics } := by
  unfold stepFlight
  split
  · exact ⟨_, _, _, _, _, _, _, rfl⟩
  · split
    · split
      · exact ⟨_, _, _, _, _, _, _, rfl⟩
      · exact b.beginLookup_eq ..
    · split
      · exact b.answerLookup_eq ..
      · split
        · obtain ⟨_, _, _, _, hb⟩ := b.conclude_eq now n draw _ none
          exact ⟨_, _, _, _, _, _, _, hb⟩
        · exact ⟨_, _, _, _, _, _, _, rfl⟩
    · split
      · exact b.beginLookup_eq ..
      · exact ⟨_, _, _, _, _, _, _, rfl⟩

theorem sameTerms_stepFlight : SameTerms b (b.stepFlight draw now n) := by
  obtain ⟨_, _, _, _, _, _, _, hb⟩ := b.stepFlight_eq now n draw
  exact hb ▸ ⟨rfl, rfl⟩

@[simp] theorem table_stepFlight : (b.stepFlight draw now n).table = b.table := by
  obtain ⟨_, _, _, _, _, _, _, hb⟩ := b.stepFlight_eq now n draw
  rw [hb]

/-! ## Operations -/

theorem sameTerms_onPartition (tp : TopicPartition) (f : Partition → Reply Handle × Partition) :
    SameTerms b (b.onPartition tp f).2 := by
  unfold onPartition
  split <;> exact ⟨rfl, rfl⟩

theorem sameTerms_atPartition (tp : TopicPartition) (f : Partition → Reply Handle) :
    SameTerms b (b.atPartition tp f).2 := by
  unfold atPartition
  split <;> exact .refl

theorem operate_cases (op : Operation) : (∃ k, op = .subscribe k) ∨ (∃ k, op = .unsubscribe k) ∨
    SameTerms b (b.operate op).2 := by
  cases op with
  | subscribe k => exact .inl ⟨k, rfl⟩
  | unsubscribe k => exact .inr (.inl ⟨k, rfl⟩)
  | register tp =>
      refine .inr (.inr ?_)
      simp only [operate]
      split <;> exact ⟨rfl, rfl⟩
  | setRange | append | roll | trim | openCursor | resetCursor =>
      exact .inr (.inr (b.sameTerms_onPartition ..))
  | range | cursor | cursors => exact .inr (.inr (b.sameTerms_atPartition ..))
  | _ => exact .inr (.inr ⟨rfl, rfl⟩)

end Bridge

namespace World

variable {w : World} {ch : Choice} {e : Event} {es : List (Choice × Event)} {k : GroupTopic}

theorem step_cases (w : World) (ch : Choice) (e : Event) : (∃ k, e = .operate (.subscribe k)) ∨
    (∃ k, e = .operate (.unsubscribe k)) ∨ Bridge.SameTerms w.bridge (w.step ch e).bridge := by
  have hmove : Move w ch (w.step ch e) e := move_step e
  generalize w.step ch e = w' at hmove ⊢
  cases hmove with
  | @operates op bridge _ =>
      obtain ⟨k, rfl⟩ | ⟨k, rfl⟩ | h := w.bridge.operate_cases op
      · exact .inl ⟨k, rfl⟩
      · exact .inr (.inl ⟨k, rfl⟩)
      · exact .inr (.inr (bridge ▸ h))
  | flies bridge _ => exact .inr (.inr (bridge ▸ w.bridge.sameTerms_stepFlight ..))
  | goes _ bridge _ _ => exact .inr (.inr (bridge ▸ w.bridge.sameTerms_stepCall ..))
  | @cancels n c _ bridge _ _ =>
      obtain ⟨_, hb⟩ := w.bridge.cancelCall_eq c
      exact .inr (.inr (bridge ▸ hb ▸ ⟨rfl, rfl⟩))
  | begins bridge _ _ => exact .inr (.inr (bridge ▸ .refl))
  | idles bridge _ => exact .inr (.inr (bridge ▸ .refl))

theorem settings_step : (w.step ch e).bridge.settings = w.bridge.settings := by
  obtain ⟨_, rfl⟩ | ⟨_, rfl⟩ | h := step_cases w ch e
  · rfl
  · rfl
  · exact h.settings

theorem settings_steps : (w.steps es).bridge.settings = w.bridge.settings := by
  induction es generalizing w with
  | nil => rfl
  | cons e es ih => exact ih.trans settings_step

/-- A group of the system stays one. -/
theorem isSystemGroup_step : (w.step ch e).bridge.isSystemGroup = w.bridge.isSystemGroup := by
  funext g
  rw [Bridge.isSystemGroup, Bridge.isSystemGroup, settings_step]

theorem isSystemGroup_steps : (w.steps es).bridge.isSystemGroup = w.bridge.isSystemGroup := by
  funext g
  rw [Bridge.isSystemGroup, Bridge.isSystemGroup, settings_steps]

/-- Whether a group subscribes after an event, given whether it did before. -/
def subscribes (k : GroupTopic) (before : Bool) : Event → Bool
  | .operate (.subscribe k') => k' == k || before
  | .operate (.unsubscribe k') => k' != k && before
  | _ => before

theorem contains_subscriptions_step : (w.step ch e).bridge.subscriptions.contains k =
    subscribes k (w.bridge.subscriptions.contains k) e := by
  by_cases hsub : ∃ k', e = .operate (.subscribe k')
  · obtain ⟨k', rfl⟩ := hsub
    simp only [step, operate, Bridge.operate, subscribes, Std.ExtTreeSet.contains_insert,
      Std.compare_beq_eq_beq]
  · by_cases hunsub : ∃ k', e = .operate (.unsubscribe k')
    · obtain ⟨k', rfl⟩ := hunsub
      simp only [step, operate, Bridge.operate, subscribes, Std.ExtTreeSet.contains_erase]
      rw [bne, bne, Std.compare_beq_eq_beq]
    · have hsame := ((step_cases w ch e).resolve_left hsub).resolve_left hunsub
      rw [hsame.subscriptions, subscribes]
      · exact fun k' h ↦ hsub ⟨k', h⟩
      · exact fun k' h ↦ hunsub ⟨k', h⟩

/-- Whether a group subscribes after a run, given whether it did before. -/
def subscribesAfter (k : GroupTopic) (before : Bool) (es : List (Choice × Event)) : Bool :=
  es.foldl (fun before e ↦ subscribes k before e.2) before

theorem contains_subscriptions_steps : (w.steps es).bridge.subscriptions.contains k =
    subscribesAfter k (w.bridge.subscriptions.contains k) es := by
  induction es generalizing w with
  | nil => rfl
  | cons e es ih =>
      rw [steps_cons, ih, contains_subscriptions_step]
      rfl

end World

end GroupOffsets
