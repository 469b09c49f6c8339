import GroupOffsets.Proofs.Cursors
import GroupOffsets.Proofs.Persist.Step
import GroupOffsets.Proofs.Persist.Turn
import GroupOffsets.Proofs.Serving

/-!
# A persist pass in a run

While a persist pass runs, anything else may happen, other passes included: they may come before it
or after it in the queue.  If the table holds one offset of a group throughout, and the pass is
handed the object of the partition, then the cursor of the group stands at that offset when the pass
is done.  `World.Saving` is the invariant: the pass waits for its turn, or owes the offset, or has
written it, and no pass that is under way by then can write anything else.
-/

namespace GroupOffsets

open World (Choice Event Task)

/-! ## Calls -/

namespace Call

/-- A persist pass that asks for a partition, or is done. -/
def ofPersist (turn : Nat) : Progress Persist PersistReport → Call
  | .asks s => .asking (.persist turn s)
  | .done report => .answered (.report report)

theorem purpose?_ofPersist {t t' : Nat} {q : Progress Persist PersistReport} {s : Persist}
    (h : (ofPersist t q).purpose? = some (.persist t' s)) : t' = t ∧ q = .asks s := by
  cases q with
  | asks s' =>
      cases h
      exact ⟨rfl, rfl⟩
  | done report => cases h

/-- A persist pass that has not begun yet. -/
inductive AwaitsTurn : Call → Prop
  | begun : AwaitsTurn (.begun .persist)
  | queued (turn : Nat) : AwaitsTurn (.queued turn)

end Call

namespace Bridge

variable {b : Bridge} {order : Itinerary} {now t : Nat} {c : Call} {s : Persist}

theorem continuePersist_snd (before : PersistReport) (q : Progress Persist PersistReport) :
    (b.continuePersist t before q).2 = .ofPersist t q := by
  cases q <;> rfl

/-- A persist pass that waits for its turn goes on waiting, or begins. -/
theorem stepCall_awaitsTurn (b : Bridge) (order : Itinerary) (now : Nat) (h : c.AwaitsTurn) :
    (b.stepCall order now c).2.AwaitsTurn ∨ ∃ t, (b.stepCall order now c).2 =
      .ofPersist t (Persist.start order b.table b.isSystemGroup) := by
  cases h with
  | begun =>
      simp only [stepCall, beginCall]
      split
      · exact .inr ⟨_, continuePersist_snd _ _⟩
      · exact .inl (.queued _)
  | queued turn =>
      simp only [stepCall]
      split
      · exact .inr ⟨_, continuePersist_snd _ _⟩
      · exact .inl (.queued _)

theorem deliver_persist (r : Attempt Handle) : (b.deliver order (.persist t s) r).2 =
    .ofPersist t (s.answer order b.table b.isSystemGroup
      (b.moveCursor r s.key.group s.position).1) := by
  obtain ⟨store, hmove⟩ := b.moveCursor_eq r s.key.group s.position
  show ((b.moveCursor r s.key.group s.position).2.continuePersist t s.report
    (s.answer order (b.moveCursor r s.key.group s.position).2.table
      (b.moveCursor r s.key.group s.position).2.isSystemGroup
      (b.moveCursor r s.key.group s.position).1)).2 = _
  rw [continuePersist_snd, hmove]
  rfl

/-- A persist pass that is handed something goes on with an answer. -/
theorem stepCall_persist_of_handed {r : Attempt Handle} (order : Itinerary)
    (h : b.handed now c = some (.persist t s, r)) : ∃ moved, (b.stepCall order now c).2 =
      .ofPersist t (s.answer order b.table b.isSystemGroup moved) := by
  obtain ⟨metrics, hb⟩ := stepCall_of_handed order h
  exact ⟨_, by rw [hb]; exact deliver_persist r⟩

/-- A persist pass keeps asking for its partition, or goes on with an answer. -/
theorem stepCall_persist (h : c.purpose? = some (.persist t s)) :
    (b.stepCall order now c).2.purpose? = some (.persist t s) ∨
      ∃ moved, (b.stepCall order now c).2 =
        .ofPersist t (s.answer order b.table b.isSystemGroup moved) := by
  cases hh : b.handed now c with
  | none => exact .inl (stepCall_of_not_handed order h hh).1
  | some pr =>
      obtain ⟨q, r⟩ := pr
      cases (purpose?_of_handed hh).symm.trans h
      exact .inr (stepCall_persist_of_handed order hh)

/-- Where a pass under way comes from: it was under way before, or it has just begun. -/
theorem persist_of_stepCall (h : (b.stepCall order now c).2.purpose? = some (.persist t s)) :
    c.purpose? = some (.persist t s) ∨
      Persist.start order b.table b.isSystemGroup = .asks s ∨
        ∃ s₀ moved, c.purpose? = some (.persist t s₀) ∧
          s₀.answer order b.table b.isSystemGroup moved = .asks s := by
  have started : c.AwaitsTurn → Persist.start order b.table b.isSystemGroup = .asks s := by
    intro hc
    rcases b.stepCall_awaitsTurn order now hc with hwaits | ⟨t', hc'⟩
    · generalize (b.stepCall order now c).2 = c' at h hwaits
      cases hwaits <;> cases h
    · exact (Call.purpose?_ofPersist (hc' ▸ h)).2
  have sweeps : ∀ q, (continueSweep q).purpose? ≠ some (.persist t s) := by
    intro q hq
    cases q <;> cases hq
  have marks : ∀ q, (continueWatermark q).purpose? ≠ some (.persist t s) := by
    intro q hq
    cases q <;> cases hq
  cases hp : c.purpose? with
  | some p =>
      cases hh : b.handed now c with
      | none => exact .inl ((stepCall_of_not_handed order hp hh).1.symm.trans h)
      | some pr =>
          obtain ⟨q, r⟩ := pr
          cases (purpose?_of_handed hh).symm.trans hp
          obtain ⟨metrics, hb⟩ := stepCall_of_handed order hh
          rw [hb] at h
          cases p with
          | persist t₀ s₀ =>
              rw [deliver_persist] at h
              obtain ⟨rfl, hs⟩ := Call.purpose?_ofPersist h
              exact .inr (.inr ⟨s₀, _, rfl, hs⟩)
          | sweep s₀ => exact absurd h (sweeps _)
          | watermark s₀ => exact absurd h (marks _)
          | _ => cases h
  | none =>
      cases c with
      | asking p => cases hp
      | waiting p n deadline => cases hp
      | begun r =>
          cases r with
          | persist => exact .inr (.inl (started .begun))
          | sweep => exact absurd h (sweeps _)
          | watermark topic excluded => exact absurd h (marks _)
          | locateOwner tp =>
              simp only [stepCall, beginCall] at h
              split at h <;> cases h
          | _ => cases h
      | queued turn => exact .inr (.inl (started (.queued turn)))
      | sleeping upTo locating =>
          simp only [stepCall] at h
          split at h
          · split at h <;> cases h
          · cases h
      | answered r => cases h

end Bridge

/-! ## Runs -/

namespace World

variable {w w' : World} {ch : Choice} {e : Event} {es : List (Choice × Event)} {n : Nat}
variable {k : GroupTopic} {p : Int32} {o : Offset} {x : Position} {τ : Task}

/-- No pass under way can write anything but `x` for one partition of an entry. -/
def Fresh (w : World) (k : GroupTopic) (p : Int32) (x : Position) : Prop :=
  ∀ τ c t s, w.callOf τ = some c → c.purpose? = some (.persist t s) → s.Fresh k p x

/-- How far the persist pass of a task has come with one partition of an entry. -/
inductive Saving (w : World) (τ : Task) (k : GroupTopic) (p : Int32) (o : Offset) (x : Position) :
    Prop
  | waits {c : Call} (call : w.callOf τ = some c) (waits : c.AwaitsTurn)
  | owes {c : Call} {t : Nat} {s : Persist} (call : w.callOf τ = some c)
      (pass : c.purpose? = some (.persist t s)) (owes : s.Owes k p o) (fresh : w.Fresh k p x)
  | written (stands : w.bridge.store.cursorOf ⟨k.topic, p⟩ k.group = some x)
      (fresh : w.Fresh k p x)
  /-- The pass was given up. -/
  | gone (none : w.callOf τ = none)

/-- If the next step of a pass is handed the partition of one offset, it is handed the partition's
own object. -/
def Resolves (w : World) (τ : Task) (k : GroupTopic) (p : Int32) : Prop :=
  ∀ c t s r, w.callOf τ = some c → w.bridge.handed w.now c = some (.persist t s, r) →
    s.key = k → s.partition = p →
    ∃ m, r = .ok ⟨m, none⟩ ∧ w.bridge.store.object? ⟨k.topic, p⟩ = some m

/-- What is granted to a pass at one event: the table holds the offset, a step of the pass that is
handed the partition is handed its own object, and the cursor stays once it is written. -/
structure Grants (w : World) (τ : Task) (ch : Choice) (e : Event) (k : GroupTopic) (p : Int32)
    (o : Offset) (x : Position) : Prop where
  exclusive : w.Exclusive
  tidy : w.bridge.store.Tidy
  user : w.bridge.isSystemGroup k.group = false
  offset : w.bridge.table.query k p = some o
  resolves : e = .step τ → w.Resolves τ k p
  keeps : w.bridge.store.cursorOf ⟨k.topic, p⟩ k.group = some x → w.Fresh k p x →
    (w.step ch e).bridge.store.cursorOf ⟨k.topic, p⟩ k.group = some x

/-- How an event leaves the call of a task: forgotten, as it is, or one step further. -/
def Leaves (w : World) (τ : Task) (ch : Choice) (e : Event) : Prop :=
  (w.step ch e).callOf τ = none ∨ (w.step ch e).callOf τ = w.callOf τ ∨
    ∃ c, e = .step τ ∧ w.callOf τ = some c ∧
      (w.step ch e).callOf τ = some (w.bridge.stepCall ch.order w.now c).2 ∧
      (w.step ch e).bridge = (w.bridge.stepCall ch.order w.now c).1

theorem fresh_stepCall {c : Call} (order : Itinerary) (now : Nat) {b : Bridge}
    (hc : ∀ t s, c.purpose? = some (.persist t s) → s.Fresh k p x) (ho : b.table.query k p = some o)
    (hx : Position.decode o = .ok x) {t : Nat} {s : Persist}
    (h : (b.stepCall order now c).2.purpose? = some (.persist t s)) : s.Fresh k p x := by
  rcases Bridge.persist_of_stepCall h with hsame | hstart | ⟨s₀, moved, hs₀, hanswer⟩
  · exact hc t s hsame
  · exact Persist.advance_fresh ho hx hstart
  · exact Persist.answer_fresh (hc t s₀ hs₀) ho hx hanswer

theorem leaves_call (hn : n < w.nextCall) (ch : Choice) (e : Event) :
    w.Leaves (.call n) ch e := by
  by_cases hstep : e = .step (.call n)
  · subst hstep
    cases hc : w.calls[n]? with
    | none => exact .inl ((congrArg (·.calls[n]?) (run_call_of_none hc)).trans hc)
    | some c => exact .inr (.inr ⟨c, rfl, hc, calls_run_call hc, bridge_run_call hc⟩)
  · by_cases hcancel : e = .cancel n
    · subst hcancel
      exact .inl calls_cancel
    · exact .inr (.inl (calls_step_of_ne hn hstep hcancel))

/-- Passes stay fresh as long as the table holds the offset. -/
theorem fresh_step (h : w.Fresh k p x) (ho : w.bridge.table.query k p = some o)
    (hx : Position.decode o = .ok x) : (w.step ch e).Fresh k p x := by
  intro τ c' t s hc hs
  rcases callOf_step_cases hc with hsame | ⟨r, rfl⟩ | ⟨c, hwas, rfl⟩
  · exact h τ c' t s hsame hs
  · cases hs
  · exact fresh_stepCall _ _ (fun t s ↦ h τ c t s hwas) ho hx hs

/-- A pass that owes an offset still does after a step, unless it has just written it. -/
theorem Grants.owes_stepCall {c : Call} {t : Nat} {s : Persist}
    (hw : w.Grants τ ch (.step τ) k p o x) (hc : w.callOf τ = some c)
    (hp : c.purpose? = some (.persist t s)) (h : s.Owes k p o) (hfresh : s.Fresh k p x)
    (hx : Position.decode o = .ok x) :
    (∃ s', (w.bridge.stepCall ch.order w.now c).2.purpose? = some (.persist t s') ∧
        s'.Owes k p o) ∨
      (w.bridge.stepCall ch.order w.now c).1.store.cursorOf ⟨k.topic, p⟩ k.group = some x := by
  cases hh : w.bridge.handed w.now c with
  | none => exact .inl ⟨s, (Bridge.stepCall_of_not_handed ch.order hp hh).1, h⟩
  | some pr =>
      obtain ⟨q, r⟩ := pr
      cases (Bridge.purpose?_of_handed hh).symm.trans hp
      by_cases hat : s.key = k ∧ s.partition = p
      · right
        obtain ⟨m, rfl, hm⟩ := hw.resolves rfl c t s r hc hh hat.1 hat.2
        obtain ⟨metrics, hb⟩ := Bridge.stepCall_of_handed ch.order hh
        rw [hb, Bridge.store_deliver_persist, Bridge.store_moveCursor_ok, Store.writeCursor_plain,
          Store.cursorOf_setObject hw.tidy hm, if_pos rfl, Store.cursor?_resetCursor, hat.1,
          if_pos rfl, (hfresh hat.1).1 hat.2]
      · left
        obtain ⟨moved, hanswer⟩ := Bridge.stepCall_persist_of_handed ch.order hh
        obtain ⟨s', hs', howes⟩ := Persist.answer_owes h hat hw.user hw.offset hx moved
        exact ⟨s', by rw [hanswer, hs']; rfl, howes⟩

/-- A pass whose turn comes owes all that the table holds. -/
theorem Grants.start_owes (hw : w.Grants τ ch e k p o x) (hx : Position.decode o = .ok x) :
    ∃ s, Persist.start ch.order w.bridge.table w.bridge.isSystemGroup = .asks s ∧
      s.Owes k p o ∧ s.Fresh k p x := by
  have hk : k ∈ arrange ch.order.entries w.bridge.table.keys := by
    obtain ⟨offsets, hoffsets, -⟩ :=
      Option.bind_eq_some_iff.mp (OffsetTable.query_eq_bind ▸ hw.offset)
    rw [mem_arrange, OffsetTable.mem_keys, hoffsets]
    rfl
  obtain ⟨s, hs, howes⟩ : ∃ s, Persist.advance ch.order w.bridge.table w.bridge.isSystemGroup ∅
      (arrange ch.order.entries w.bridge.table.keys) = .asks s ∧ s.Owes k p o :=
    Persist.advance_owes hk hw.user hw.offset hx
  exact ⟨s, hs, howes, Persist.advance_fresh hw.offset hx hs⟩

/-- A pass that has just begun is the only one. -/
theorem Grants.saving_start {t : Nat} (hw : w.Grants τ ch e k p o x)
    (hx : Position.decode o = .ok x) (hexclusive : w'.Exclusive)
    (hc : w'.callOf τ = some (.ofPersist t
      (Persist.start ch.order w.bridge.table w.bridge.isSystemGroup))) :
    w'.Saving τ k p o x := by
  obtain ⟨s, hs, howes, hfresh⟩ := hw.start_owes hx
  rw [hs] at hc
  apply Saving.owes hc rfl howes
  intro τ' c t' s' hτ hs'
  cases hexclusive.eq hτ hs' hc rfl
  cases hτ.symm.trans hc
  cases hs'
  exact hfresh

/-- The invariant survives an event at which the pass is granted what it needs. -/
theorem Grants.saving_step (hw : w.Grants τ ch e k p o x) (hx : Position.decode o = .ok x)
    (h : w.Saving τ k p o x) (hcall : w.Leaves τ ch e) : (w.step ch e).Saving τ k p o x := by
  have hexclusive : (w.step ch e).Exclusive := exclusive_step hw.exclusive
  cases h with
  | waits call waits =>
      rcases hcall with hnone | hsame | ⟨c, -, hc, hgoes, -⟩
      · exact .gone hnone
      · exact .waits (hsame.trans call) waits
      · cases hc.symm.trans call
        rcases w.bridge.stepCall_awaitsTurn ch.order w.now waits with hwaits | ⟨t, hstart⟩
        · exact .waits hgoes hwaits
        · exact hw.saving_start hx hexclusive (hstart ▸ hgoes)
  | owes call pass owes fresh =>
      have hfresh : (w.step ch e).Fresh k p x := fresh_step fresh hw.offset hx
      rcases hcall with hnone | hsame | ⟨c, rfl, hc, hgoes, hbridge⟩
      · exact .gone hnone
      · exact .owes (hsame.trans call) pass owes hfresh
      · cases hc.symm.trans call
        rcases hw.owes_stepCall call pass owes (fresh _ _ _ _ call pass) hx with
          ⟨s', hs', howes⟩ | hwritten
        · exact .owes hgoes hs' howes hfresh
        · exact .written (hbridge ▸ hwritten) hfresh
  | written stands fresh => exact .written (hw.keeps stands fresh) (fresh_step fresh hw.offset hx)
  | gone none =>
      rcases hcall with hnone | hsame | ⟨c, -, hc, -⟩
      · exact .gone hnone
      · exact .gone (hsame.trans none)
      · cases none.symm.trans hc

/-- A pass that is done has written the offset. -/
theorem Saving.written_of_reply {reply : Reply Handle} (h : w.Saving (.call n) k p o x)
    (hreply : w.reply? n = some reply) :
    w.bridge.store.cursorOf ⟨k.topic, p⟩ k.group = some x := by
  obtain ⟨c, hc, hanswered⟩ := Option.bind_eq_some_iff.mp hreply
  cases h with
  | waits call waits =>
      cases hc.symm.trans call
      cases waits <;> cases hanswered
  | owes call pass owes fresh =>
      cases hc.symm.trans call
      cases c with
      | answered r => cases pass
      | _ => cases hanswered
  | written stands fresh => exact stands
  | gone none => cases hc.symm.trans none

/-! ## Served partitions -/

/-- What stays as it is while an offset on a served partition is saved. -/
structure Holds (w : World) (k : GroupTopic) (p : Int32) (o : Offset) : Prop where
  serving : w.Serving
  exclusive : w.Exclusive
  served : (w.bridge.store.object? ⟨k.topic, p⟩).isSome
  user : w.bridge.isSystemGroup k.group = false
  offset : w.bridge.table.query k p = some o

/-- What is written stays, for nothing else can be written. -/
theorem written_step (hw : w.Serving) (ch : Choice) (he : e.sparesPartitions)
    (h : w.bridge.store.cursorOf ⟨k.topic, p⟩ k.group = some x) (hfresh : w.Fresh k p x) :
    (w.step ch e).bridge.store.cursorOf ⟨k.topic, p⟩ k.group = some x := by
  rcases cursors_step hw ch he with hsame | ⟨τ, t, s, hτ, hmoved⟩
  · rw [hsame, h]
  · rw [hmoved]
    split
    · rename_i hat
      obtain ⟨htarget, hgroup⟩ := hat
      obtain ⟨htopic, hp⟩ := TopicPartition.mk.inj htarget
      have hkey : s.key = k := by
        obtain ⟨g, topic⟩ := k
        exact (GroupTopic.mk.injEq ..).mpr ⟨hgroup.symm, htopic.symm⟩
      exact congrArg some ((hfresh τ _ t s hτ rfl hkey).1 hp.symm)
    · exact h

/-- Served partitions are cached, and so a pass gets them. -/
theorem Holds.grants (hw : w.Holds k p o) (ch : Choice) (he : e.sparesPartitions) :
    w.Grants (.call n) ch e k p o x := by
  refine ⟨hw.exclusive, hw.serving.bridge.tidy, hw.user, hw.offset, ?_,
    fun h hfresh ↦ written_step hw.serving ch he h hfresh⟩
  rintro rfl c t s r hc hh rfl rfl
  obtain ⟨m, hm⟩ := Option.isSome_iff_exists.mp hw.served
  have hp := Bridge.purpose?_of_handed hh
  cases c with
  | asking q =>
      cases hp
      obtain ⟨hd, hget, heq⟩ := Option.map_eq_some_iff.mp hh
      cases heq
      obtain ⟨m', hm', rfl⟩ := hw.serving.bridge.cached.mp hget
      exact ⟨m', rfl, hm'⟩
  | waiting q m' deadline =>
      cases hp
      cases (hw.serving.awaits hc rfl).symm.trans hm
  | _ => cases hp

theorem Holds.step (hw : w.Holds k p o) (ch : Choice) (he : e.sparesPartitions)
    (ho : (w.step ch e).bridge.table.query k p = some o) : (w.step ch e).Holds k p o := by
  obtain ⟨hserving, hsame⟩ := serving_step hw.serving ch he
  refine ⟨hserving, exclusive_step hw.exclusive, ?_, ?_, ho⟩
  · rw [hsame.objects]
    exact hw.served
  · rw [isSystemGroup_step]
    exact hw.user

theorem Holds.saving_steps (hw : w.Holds k p o) (hx : Position.decode o = .ok x)
    (h : w.Saving (.call n) k p o x) (hn : n < w.nextCall)
    (hes : ∀ e ∈ es, e.2.sparesPartitions)
    (ho : ∀ done rest, es = done ++ rest → (w.steps done).bridge.table.query k p = some o) :
    (w.steps es).Saving (.call n) k p o x := by
  induction es generalizing w with
  | nil => exact h
  | cons e es ih =>
      have he := hes e (List.mem_cons_self ..)
      refine ih (hw.step e.1 he (ho [e] es rfl))
        ((hw.grants e.1 he).saving_step hx h (leaves_call hn e.1 e.2))
        (Nat.lt_of_lt_of_le hn nextCall_le_step)
        (fun e' he' ↦ hes e' (List.mem_cons_of_mem _ he')) ?_
      rintro done rest rfl
      exact ho (e :: done) rest rfl

/-- When a persist pass is done, the cursor of a group stands at the offset that the table held
throughout, whatever else went on. -/
theorem persist_writes {reply : Reply Handle} (hserving : w.Serving) (hexclusive : w.Exclusive)
    (hserved : (w.bridge.store.object? ⟨k.topic, p⟩).isSome)
    (huser : w.bridge.isSystemGroup k.group = false) (hx : Position.decode o = .ok x)
    (hes : ∀ e ∈ es, e.2.sparesPartitions)
    (ho : ∀ done rest, es = done ++ rest →
      ((w.call .persist).2.steps done).bridge.table.query k p = some o)
    (hreply : ((w.call .persist).2.steps es).reply? w.nextCall = some reply) :
    ((w.call .persist).2.steps es).bridge.store.cursorOf ⟨k.topic, p⟩ k.group = some x := by
  have hcall : (w.call .persist).2 = w.step .plain (.call .persist) := rfl
  have hholds : (w.call .persist).2.Holds k p o := by
    refine ⟨?_, ?_, hserved, huser, ho [] es rfl⟩
    · exact hcall ▸ (serving_step hserving .plain rfl).1
    · exact hcall ▸ exclusive_step hexclusive
  have hsaving :=
    hholds.saving_steps hx (.waits (calls_call w .persist) .begun) (Nat.lt_succ_self _) hes ho
  exact hsaving.written_of_reply hreply

end World

end GroupOffsets
