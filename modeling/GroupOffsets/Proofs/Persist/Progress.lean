import GroupOffsets.Proofs.Persist.Run

/-!
# Persist passes get done

A pass comes to finitely many offsets, and for the partition of each it waits a bounded time.  So a
pass that begins when no other one is under way gets done by its own steps, if time goes on; and it
leaves the table as it is.
-/

namespace GroupOffsets

open World (Choice Event Task)

/-! ## What is left to do -/

namespace Persist

variable {order : Itinerary} {t : OffsetTable} {isSystem : String → Bool} {s s' : Persist}
variable {key : GroupTopic} {keys : List GroupTopic} {report : PersistReport}
variable {offsets : List (Int32 × Offset)}

/-- How many offsets there are in some entries. -/
def weight (t : OffsetTable) : List GroupTopic → Nat
  | [] => 0
  | key :: keys => ((t.partitions key).map (·.size)).getD 0 + weight t keys

theorem weight_eq (t : OffsetTable) (keys : List GroupTopic) :
    weight t keys = keys.foldr (fun k n ↦ (t.queryAll k).size + n) 0 := by
  induction keys with
  | nil => rfl
  | cons key keys ih =>
      rw [weight, ih, List.foldr_cons, OffsetTable.queryAll]
      cases t.partitions key <;> rfl

/-- In whichever order the entries are visited, there are as many offsets. -/
theorem weight_arrange_keys (picks : List Nat) (t : OffsetTable) :
    weight t (arrange picks t.keys) = t.count := by
  rw [weight_eq]
  refine (arrange_perm picks t.keys).foldr_eq' (fun k _ k' _ n ↦ ?_) 0
  exact Nat.add_left_comm (t.queryAll k').size (t.queryAll k).size n

/-- How many offsets a pass may still come to. -/
def left (t : OffsetTable) (s : Persist) : Nat := s.rest.length + weight t s.keys

theorem seek_left (h : seek key keys report offsets = .asks s) :
    s.rest.length < offsets.length := by
  fun_induction seek key keys report offsets with
  | case1 => cases h
  | case2 =>
      cases h
      exact Nat.lt_succ_self _
  | case3 report partition offset rest e he ih => exact Nat.lt_succ_of_lt (ih h)

theorem advance_left (h : advance order t isSystem report keys = .asks s) :
    s.left t < weight t keys := by
  induction keys generalizing report with
  | nil => cases h
  | cons key keys ih =>
      have hweight : weight t (key :: keys) =
          ((t.partitions key).map (·.size)).getD 0 + weight t keys := rfl
      rw [advance] at h
      split at h
      · have hlater := ih h
        omega
      · split at h
        · have hlater := ih h
          omega
        · rename_i offsets hoffsets
          split at h
          · rename_i s' hs'
            cases h
            have hrest := seek_left hs'
            have hkeys := (seek_keys hs').2
            rw [(arrange_perm ..).length_eq, Std.ExtTreeMap.length_toList] at hrest
            rw [left, hkeys, hweight, hoffsets, Option.map_some, Option.getD_some]
            omega
          · have hlater := ih h
            omega

/-- Every answer brings a pass nearer to its end. -/
theorem answer_left {moved : Bool} (h : s.answer order t isSystem moved = .asks s') :
    s'.left t < s.left t := by
  rw [answer] at h
  split at h
  · rename_i s'' hs''
    cases h
    have hrest := seek_left hs''
    rw [left, left, (seek_keys hs'').2]
    omega
  · exact Nat.lt_of_lt_of_le (advance_left h) (Nat.le_add_left _ _)

end Persist

/-! ## A pass by itself -/

/-- A call that is a persist pass. -/
inductive Call.Persists : Call → Prop
  | awaits {c : Call} (h : c.AwaitsTurn) : Persists c
  | asks {c : Call} {t : Nat} {s : Persist} (h : c.purpose? = some (.persist t s)) : Persists c
  | done (report : PersistReport) : Persists (.answered (.report report))

/-- A persist pass that is done has a report. -/
theorem Call.Persists.exists_report {c : Call} {reply : Reply Handle} (h : c.Persists)
    (hreply : c.reply? = some reply) : ∃ report, c = .answered (.report report) := by
  cases h with
  | awaits hwaits => cases hwaits <;> cases hreply
  | asks hp =>
      cases c with
      | answered r => cases hp
      | _ => cases hreply
  | done report => exact ⟨report, rfl⟩

theorem Call.persists_ofPersist (t : Nat) (q : Progress Persist PersistReport) :
    (ofPersist t q).Persists := by
  cases q with
  | asks s => exact .asks rfl
  | done report => exact .done report

namespace Bridge

variable {b : Bridge} {order : Itinerary} {now t deadline : Nat} {c : Call} {s : Persist}

theorem table_deliver_persist (r : Attempt Handle) :
    (b.deliver order (.persist t s) r).1.table = b.table := by
  obtain ⟨store, hmove⟩ := b.moveCursor_eq r s.key.group s.position
  obtain ⟨metrics, persistTurn, hb⟩ := continuePersist_eq
    (b.moveCursor r s.key.group s.position).2 t s.report
    (s.answer order (b.moveCursor r s.key.group s.position).2.table
      (b.moveCursor r s.key.group s.position).2.isSystemGroup
      (b.moveCursor r s.key.group s.position).1)
  refine (congrArg Bridge.table hb).trans ?_
  rw [hmove]

/-- A persist pass stays one, and leaves the table alone. -/
theorem persists_stepCall (b : Bridge) (order : Itinerary) (now : Nat) (h : c.Persists) :
    (b.stepCall order now c).2.Persists ∧ (b.stepCall order now c).1.table = b.table := by
  cases h with
  | awaits hwaits =>
      constructor
      · rcases b.stepCall_awaitsTurn order now hwaits with hwaits' | ⟨t, hstart⟩
        · exact .awaits hwaits'
        · exact hstart ▸ Call.persists_ofPersist t _
      · have hidle : c.purpose? = none := by cases hwaits <;> rfl
        obtain ⟨_, _, _, _, hb⟩ := b.stepCall_idle_eq order now hidle
        rw [hb]
  | asks hp =>
      constructor
      · rcases stepCall_persist hp with hsame | ⟨moved, hanswer⟩
        · exact .asks hsame
        · exact hanswer ▸ Call.persists_ofPersist _ _
      · cases hh : b.handed now c with
        | none =>
            obtain ⟨-, hb | ⟨-, hb⟩⟩ := stepCall_of_not_handed order hp hh <;> rw [hb]
            rfl
        | some pr =>
            obtain ⟨q, r⟩ := pr
            cases (purpose?_of_handed hh).symm.trans hp
            obtain ⟨metrics, hb⟩ := stepCall_of_handed order hh
            rw [hb]
            exact table_deliver_persist r
  | done report => exact ⟨.done report, rfl⟩

/-- A pass that finds the turn free begins at once. -/
theorem stepCall_begun_persist (b : Bridge) (order : Itinerary) (now : Nat)
    (h : b.persistTurn.holder = none) : ∃ t, (b.stepCall order now (.begun .persist)).2 =
      .ofPersist t (Persist.start order b.table b.isSystemGroup) := by
  have henter : b.persistTurn.enter.2.holder = some b.persistTurn.enter.1 := by
    rw [Turnstile.enter, h]
  simp only [stepCall, beginCall, henter, if_true]
  exact ⟨_, continuePersist_snd _ _⟩

/-- A pass whose wait is over goes on. -/
theorem stepCall_waiting (b : Bridge) (order : Itinerary) (t n : Nat) (s : Persist)
    (h : deadline ≤ now) :
    ∃ moved, (b.stepCall order now (.waiting (.persist t s) n deadline)).2 =
      .ofPersist t (s.answer order b.table b.isSystemGroup moved) := by
  have hhanded : ∃ r,
      b.handed now (.waiting (.persist t s) n deadline) = some (.persist t s, r) := by
    simp only [handed]
    split
    · exact ⟨_, rfl⟩
    · rw [if_pos h]
      exact ⟨_, rfl⟩
  obtain ⟨r, hr⟩ := hhanded
  exact stepCall_persist_of_handed order hr

end Bridge

/-! ## Runs -/

namespace World

variable {w : World} {n t : Nat} {c : Call} {s : Persist} {es es' : List (Choice × Event)}

/-- A run in which one call goes on, time passes, and nothing else happens. -/
def Alone (n : Nat) (es : List (Choice × Event)) : Prop :=
  ∀ e ∈ es, e.2 = .step (.call n) ∨ ∃ ms, e.2 = .elapse ms

theorem Alone.append (h : Alone n es) (h' : Alone n es') : Alone n (es ++ es') := by
  intro e he
  rcases List.mem_append.mp he with hmem | hmem
  · exact h e hmem
  · exact h' e hmem

/-- A persist pass by itself leaves the table as it is. -/
theorem table_of_alone (hc : w.calls[n]? = some c) (hpersists : c.Persists) (h : Alone n es) :
    (w.steps es).bridge.table = w.bridge.table := by
  induction es generalizing w c with
  | nil => rfl
  | cons e es ih =>
      obtain ⟨ch, e⟩ := e
      have hes : Alone n es := fun e' he' ↦ h e' (List.mem_cons_of_mem _ he')
      rcases h _ (List.mem_cons_self ..) with rfl | ⟨ms, rfl⟩
      · obtain ⟨hpersists', htable⟩ :=
          w.bridge.persists_stepCall ch.order w.now hpersists
        refine (ih (calls_run_call hc) hpersists' hes).trans ?_
        rw [bridge_run_call hc, htable]
      · exact ih hc hpersists hes

/-- A pass that asks for a partition goes on, at the latest when its wait is over. -/
theorem exists_answer (hc : w.calls[n]? = some c) (hp : c.purpose? = some (.persist t s)) :
    ∃ es moved, Alone n es ∧ (w.steps es).calls[n]? = some (.ofPersist t
      (s.answer .plain w.bridge.table w.bridge.isSystemGroup moved)) := by
  have waited : ∀ {w : World} {m deadline : Nat},
      w.calls[n]? = some (.waiting (.persist t s) m deadline) → ∃ es moved, Alone n es ∧
        (w.steps es).calls[n]? = some (.ofPersist t
          (s.answer .plain w.bridge.table w.bridge.isSystemGroup moved)) := by
    intro w m deadline hc
    obtain ⟨moved, hmoved⟩ := w.bridge.stepCall_waiting .plain t m s (Nat.le_add_left deadline w.now)
    refine ⟨[(.plain, .elapse deadline), (.plain, .step (.call n))], moved, by simp [Alone], ?_⟩
    have hlater : (w.step .plain (.elapse deadline)).calls[n]? = _ := hc
    exact (calls_run_call hlater).trans (congrArg some hmoved)
  cases c with
  | waiting q m deadline =>
      cases hp
      exact waited hc
  | asking q =>
      cases hp
      have hstep : (w.step .plain (.step (.call n))).calls[n]? = _ := calls_run_call hc
      cases hh : w.bridge.handed w.now (.asking (.persist t s)) with
      | some pr =>
          obtain ⟨q, r⟩ := pr
          cases Bridge.purpose?_of_handed hh
          obtain ⟨moved, hmoved⟩ := Bridge.stepCall_persist_of_handed .plain hh
          exact ⟨[(.plain, .step (.call n))], moved, by simp [Alone],
            hstep.trans (congrArg some hmoved)⟩
      | none =>
          have hget : w.bridge.cache.get? (Purpose.persist t s).target = none :=
            Option.map_eq_none_iff.mp hh
          have hjoin : (w.step .plain (.step (.call n))).bridge =
              (w.bridge.joinFlight (Purpose.persist t s).target).2 :=
            (bridge_run_call hc).trans (by simp only [Bridge.stepCall, hget])
          simp only [Bridge.stepCall, hget] at hstep
          obtain ⟨es, moved, hes, hcall⟩ := waited hstep
          refine ⟨(.plain, .step (.call n)) :: es, moved, ?_, ?_⟩
          · rintro e (_ | ⟨_, he⟩)
            · exact .inl rfl
            · exact hes e he
          · rw [hjoin] at hcall
            exact hcall
  | _ => cases hp

/-- A pass that is under way gets done. -/
theorem exists_report (hc : w.calls[n]? = some c) (hp : c.purpose? = some (.persist t s)) :
    ∃ es report, Alone n es ∧ (w.steps es).reply? n = some (.report report) := by
  induction hleft : s.left w.bridge.table using Nat.strongRecOn generalizing w c s with
  | ind left ih =>
      subst hleft
      obtain ⟨es, moved, hes, hcall⟩ := exists_answer hc hp
      have htable := table_of_alone hc (.asks hp) hes
      cases hanswer : s.answer .plain w.bridge.table w.bridge.isSystemGroup moved with
      | done report =>
          rw [hanswer] at hcall
          exact ⟨es, report, hes, by rw [reply?, hcall]; rfl⟩
      | asks s' =>
          rw [hanswer] at hcall
          have hleft : s'.left (w.steps es).bridge.table < s.left w.bridge.table := by
            rw [htable]
            exact Persist.answer_left hanswer
          obtain ⟨es', report, hes', hreply⟩ := ih _ hleft hcall rfl rfl
          exact ⟨es ++ es', report, hes.append hes', by rw [steps_append, hreply]⟩

/-- A persist pass that nobody is in the way of gets done, and the table stays as it is. -/
theorem persist_gets_done (w : World) (hfree : w.bridge.persistTurn.holder = none) :
    ∃ es report, Alone w.nextCall es ∧
      ((w.call .persist).2.steps es).reply? w.nextCall = some (.report report) ∧
      ∀ done rest, es = done ++ rest →
        ((w.call .persist).2.steps done).bridge.table = w.bridge.table := by
  have hbegun := calls_call w .persist
  have hstays : ∀ {es}, Alone w.nextCall es → ∀ done rest, es = done ++ rest →
      ((w.call .persist).2.steps done).bridge.table = w.bridge.table := by
    rintro _ hes done rest rfl
    exact table_of_alone hbegun (.awaits .begun) fun e he ↦ hes e (List.mem_append_left rest he)
  obtain ⟨t, hstart⟩ := (w.call .persist).2.bridge.stepCall_begun_persist .plain w.now hfree
  have hcall : ((w.call .persist).2.step .plain (.step (.call w.nextCall))).calls[
      w.nextCall]? = _ :=
    (calls_run_call hbegun).trans (congrArg some hstart)
  have hstep : Alone w.nextCall [(.plain, .step (.call w.nextCall))] := by simp [Alone]
  cases hq : Persist.start .plain w.bridge.table w.bridge.isSystemGroup with
  | done report =>
      refine ⟨_, report, hstep, ?_, hstays hstep⟩
      rw [steps_cons, steps_nil, reply?, hcall]
      exact congrArg (fun q ↦ (Call.ofPersist t q).reply?) hq
  | asks s =>
      have hasks := hcall.trans (congrArg (fun q ↦ some (Call.ofPersist t q)) hq)
      obtain ⟨es, report, hes, hreply⟩ := exists_report hasks rfl
      exact ⟨_, report, hstep.append hes, by rw [steps_append]; exact hreply,
        hstays (hstep.append hes)⟩

end World

end GroupOffsets
