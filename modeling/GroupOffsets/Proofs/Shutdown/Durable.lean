import GroupOffsets.Proofs.Shutdown.Phases

/-!
# Nothing is lost at shutdown

What the table holds while the last pass of the persist loop runs is in the store when the service
is over.  The pass is saved as any other one; after it only the users' own passes could move the
cursor again, for the sweep loop writes nothing.
-/

namespace GroupOffsets

open World (Choice Event Task)

/-! ## The sweep loop -/

/-- A call that is a sweep pass. -/
inductive Call.Sweeps : Call → Prop
  | begun : Sweeps (.begun .sweep)
  | asks {c : Call} {s : Sweep} (h : c.purpose? = some (.sweep s)) : Sweeps c
  | done (removed : List GroupTopic) : Sweeps (.answered (.keys removed))

namespace Call.Sweeps

variable {c : Call}

theorem not_persist (h : c.Sweeps) (t : Nat) (s : Persist) :
    c.purpose? ≠ some (.persist t s) := by
  intro hp
  cases h with
  | begun => cases hp
  | asks h => cases h.symm.trans hp
  | done removed => cases hp

theorem of_continueSweep (q : Progress Sweep (List GroupTopic)) :
    (Bridge.continueSweep q).Sweeps := by
  cases q with
  | asks s => exact .asks rfl
  | done removed => exact .done removed

/-- A sweep pass stays one. -/
theorem stepCall (h : c.Sweeps) (b : Bridge) (order : Itinerary) (now : Nat) :
    (b.stepCall order now c).2.Sweeps := by
  cases h with
  | begun => exact of_continueSweep _
  | asks hp =>
      cases hh : b.handed now c with
      | none => exact .asks (Bridge.stepCall_of_not_handed order hp hh).1
      | some pr =>
          obtain ⟨q, r⟩ := pr
          cases (Bridge.purpose?_of_handed hh).symm.trans hp
          obtain ⟨metrics, hb⟩ := Bridge.stepCall_of_handed order hh
          rw [hb]
          exact of_continueSweep _
  | done removed => exact .done removed

end Call.Sweeps

namespace Service

variable {s : Service} {c : Call}
variable (b : Bridge) (tickFirst : Bool) (order : Itinerary) (now : Nat)

theorem sweeps_stepSweeper (h : ∀ c, s.sweeper.pass? = some c → c.Sweeps)
    (hc : (s.stepSweeper b tickFirst order now).2.sweeper.pass? = some c) : c.Sweeps := by
  rw [stepSweeper] at hc
  cases hl : s.sweeper with
  | begun =>
      rw [hl] at hc
      dsimp only at hc
      split at hc <;> cases hc
  | idle tickAt =>
      rw [hl] at hc
      dsimp only at hc
      split at hc
      · exact h c hc
      · cases hc
        exact .begun
      · cases hc
  | passing tickAt pass =>
      rw [hl] at hc
      dsimp only at hc
      split at hc
      · cases hc
      · cases hc
        exact (h pass (hl ▸ rfl)).stepCall b order now
  | ended =>
      rw [hl] at hc
      exact h c hc

end Service

namespace World

variable {w : World} {ch : Choice} {e : Event} {es : List (Choice × Event)} {τ : Task}
variable {k : GroupTopic} {p : Int32} {o : Offset} {x : Position} {c : Call} {tp : TopicPartition}
variable {g : String}

/-- The passes of the sweep loop are sweep passes. -/
def SweeperSweeps (w : World) : Prop := ∀ c, w.callOf .sweeper = some c → c.Sweeps

theorem sweeperSweeps_step (h : w.SweeperSweeps) (ch : Choice) (e : Event) :
    (w.step ch e).SweeperSweeps := by
  intro c hc
  cases hserve : e.isServe with
  | true =>
      cases e with
      | serve sweepEvery persistEvery => cases hc
      | _ => cases hserve
  | false =>
      simp only [callOf, service_step w ch hserve, Option.bind_map] at hc
      obtain ⟨s, hs, hpass⟩ := Option.bind_eq_some_iff.mp hc
      have hwas : ∀ c, s.sweeper.pass? = some c → c.Sweeps := by
        intro c hc
        refine h c ?_
        rw [callOf, hs, Option.bind_some, hc]
      cases e with
      | step τ =>
          cases τ with
          | sweeper => exact s.sweeps_stepSweeper w.bridge ch.tickFirst ch.order w.now hwas hpass
          | persister =>
              refine hwas c ?_
              rw [← (s.goes_stepPersister w.bridge ch.tickFirst ch.order w.now).2]
              exact hpass
          | _ => exact hwas c hpass
      | _ => exact hwas c hpass

theorem sweeperSweeps_steps (h : w.SweeperSweeps) (es : List (Choice × Event)) :
    (w.steps es).SweeperSweeps :=
  steps_of_step SweeperSweeps (fun _ ch e h ↦ sweeperSweeps_step h ch e) h es

/-! ## The last pass -/

theorem leaves_persister (hleaving : w.InService Service.Leaving) (hserve : e.isServe = false)
    (ch : Choice) : w.Leaves .persister ch e := by
  obtain ⟨s, hs, -, tickAt, c, hl, -⟩ := hleaving
  by_cases hstep : e = .step .persister
  · subst hstep
    have hc : w.callOf .persister = some c := by
      rw [callOf_persister hs, hl]
      rfl
    obtain ⟨hbridge, hgoes | ⟨hdone, -⟩⟩ := run_of_callOf hc ch
    · exact .inr (.inr ⟨c, rfl, hc, hgoes, hbridge⟩)
    · exact .inl hdone
  · right
    left
    rw [callOf_persister (service_step_of_some hs ch hserve), callOf_persister hs,
      (samePersister_onService s w ch hstep).persister]

/-- Whatever else goes on, a pass that is handed its partition is granted all that it needs, unless
somebody resets the cursor. -/
theorem grants_of_named (hnamed : w.Named) (hexclusive : w.Exclusive)
    (huser : w.bridge.isSystemGroup k.group = false) (ho : w.bridge.table.query k p = some o)
    (hresolves : e = .step τ → w.Resolves τ k p) (he : e.resets ⟨k.topic, p⟩ k.group = false)
    (ch : Choice) : w.Grants τ ch e k p o x := by
  refine ⟨hexclusive, hnamed.tidy, huser, ho, hresolves, fun hstands hfresh ↦ ?_⟩
  refine cursorOf_step hnamed hstands he fun τ' c t s hc hp htarget hgroup ↦ ?_
  obtain ⟨htopic, hpartition⟩ := TopicPartition.mk.inj htarget
  have hkey : s.key = k := by
    obtain ⟨g, topic⟩ := k
    exact (GroupTopic.mk.injEq ..).mpr ⟨hgroup, htopic⟩
  exact (hfresh τ' c t s hc hp hkey).1 hpartition

/-- The invariant of the last pass. -/
theorem saving_of_leaving (hnamed : w.Named) (hexclusive : w.Exclusive)
    (huser : w.bridge.isSystemGroup k.group = false) (hx : Position.decode o = .ok x)
    (hserve : ∀ e ∈ es, e.2.isServe = false)
    (hleaving : w.Always (InService · Service.Leaving) es)
    (ho : w.Always (·.bridge.table.query k p = some o) es)
    (hresolves : ∀ done ch rest, es = done ++ (ch, .step .persister) :: rest →
      (w.steps done).Resolves .persister k p)
    (hresets : ∀ e ∈ es, e.2.resets ⟨k.topic, p⟩ k.group = false)
    (h : w.Saving .persister k p o x) : (w.steps es).Saving .persister k p o x := by
  induction es generalizing w with
  | nil => exact h
  | cons e es ih =>
      obtain ⟨ch, e⟩ := e
      have hmem := List.mem_cons_self (a := (ch, e)) (l := es)
      have hgrants : w.Grants .persister ch e k p o x := by
        refine grants_of_named hnamed hexclusive huser ho.start ?_ (hresets _ hmem) ch
        rintro rfl
        exact hresolves [] ch es rfl
      refine ih (named_step hnamed ch e) (exclusive_step hexclusive) ?_
        (fun e he ↦ hserve e (List.mem_cons_of_mem _ he)) hleaving.tail ho.tail ?_
        (fun e he ↦ hresets e (List.mem_cons_of_mem _ he))
        (hgrants.saving_step hx h (leaves_persister hleaving.start (hserve _ hmem) ch))
      · rw [isSystemGroup_step]
        exact huser
      · rintro done ch' rest rfl
        exact hresolves ((ch, e) :: done) ch' rest rfl

/-- The step with which a pass gets its answer leaves the offset written. -/
theorem Grants.written_of_answered {reply : Reply Handle} (hw : w.Grants τ ch (.step τ) k p o x)
    (hx : Position.decode o = .ok x) (h : w.Saving τ k p o x) (hc : w.callOf τ = some c)
    (hanswer : (w.bridge.stepCall ch.order w.now c).2 = .answered reply)
    (hbridge : (w.step ch (.step τ)).bridge = (w.bridge.stepCall ch.order w.now c).1) :
    (w.step ch (.step τ)).bridge.store.cursorOf ⟨k.topic, p⟩ k.group = some x := by
  cases h with
  | waits call waits =>
      cases hc.symm.trans call
      rcases w.bridge.stepCall_awaitsTurn ch.order w.now waits with hwaits | ⟨t, hstart⟩
      · generalize (w.bridge.stepCall ch.order w.now c).2 = c' at hanswer hwaits
        subst hanswer
        cases hwaits
      · obtain ⟨s, hs, -⟩ := hw.start_owes hx
        rw [hs] at hstart
        cases hstart.symm.trans hanswer
  | owes call pass owes fresh =>
      cases hc.symm.trans call
      rcases hw.owes_stepCall call pass owes (fresh _ _ _ _ call pass) hx with
        ⟨s', hs', -⟩ | hwritten
      · rw [hanswer] at hs'
        cases hs'
      · rw [hbridge]
        exact hwritten
  | written stands fresh => exact hw.keeps stands fresh
  | gone none => cases hc.symm.trans none

/-! ## After the last pass -/

/-- No pass that a user began is about to put a cursor elsewhere. -/
def CallsSpare (w : World) (tp : TopicPartition) (g : String) (x : Position) : Prop :=
  ∀ (n : Nat) c t s, w.calls[n]? = some c → c.purpose? = some (.persist t s) →
    s.target = tp → s.key.group = g → s.position = x

/-- When the persist loop has ended, a cursor stays where it is unless users move it. -/
theorem cursorOf_of_left (hnamed : w.Named) (hsweeps : w.SweeperSweeps)
    (hleft : w.Always (InService · Service.Left) es)
    (hcalls : w.Always (CallsSpare · tp g x) es) (hresets : ∀ e ∈ es, e.2.resets tp g = false)
    (hx : w.bridge.store.cursorOf tp g = some x) :
    (w.steps es).bridge.store.cursorOf tp g = some x := by
  induction es generalizing w with
  | nil => exact hx
  | cons e es ih =>
      obtain ⟨ch, e⟩ := e
      refine ih (named_step hnamed ch e) (sweeperSweeps_step hsweeps ch e) hleft.tail hcalls.tail
        (fun e he ↦ hresets e (List.mem_cons_of_mem _ he))
        (cursorOf_step hnamed hx (hresets _ (List.mem_cons_self ..)) fun τ c t s hc hp ↦ ?_)
      cases τ with
      | flight n => cases hc
      | call n => exact hcalls.start n c t s hc hp
      | sweeper => exact absurd hp ((hsweeps c hc).not_persist t s)
      | persister =>
          obtain ⟨s, hs, hl, -⟩ := hleft.start
          rw [callOf_persister hs, hl] at hc
          cases hc

/-! ## Shutdown -/

/-- Nothing is lost at shutdown.  When a service is over, whatever went on while it ran, its persist
loop has heard the signal and begun a pass then, the pass got its report, and the loop began no
other one after it; without an interval there was none before it either.  An offset that the table
held while that pass ran, and for whose partition the pass was handed the partition's own object,
stands in the store then, unless users have moved the cursor themselves. -/
theorem shutdown_is_durable (now : Nat) (settings : Bridge.Settings) (owner : String)
    (points : CursorPoints) (manualClock : Option Nat) (before es : List (Choice × Event))
    (sweepEvery persistEvery : Nat) (hes : ∀ e ∈ es, e.2.isServe = false) :
    let w := ((new now (.new settings (.new owner points) manualClock)).steps before).step .plain
      (.serve sweepEvery persistEvery)
    (w.steps es).InService (·.isOver = true) →
    ∃ lead ch pass ch' rest,
      es = lead ++ (ch, .step .persister) :: (pass ++ (ch', .step .persister) :: rest) ∧
      let v := (w.steps lead).step ch (.step .persister)
      let u := (v.steps pass).step ch' (.step .persister)
      ((∃ e ∈ lead, e.2 = .stop) ∧ w.Always (InService · (·.heard = false)) lead ∧
        (w.steps lead).callOf .persister = none) ∧
      (v.InService (·.heard = true) ∧ v.callOf .persister = some (.begun .persist) ∧
        v.Always (fun v' ↦ (v'.callOf .persister).isSome) pass ∧
        ∃ c report, (v.steps pass).callOf .persister = some c ∧
          ((v.steps pass).bridge.stepCall ch'.order (v.steps pass).now c).2 =
            .answered (.report report)) ∧
      u.Always (·.callOf .persister = none) rest ∧
      (persistEvery = 0 → w.Always (·.callOf .persister = none) lead) ∧
      ∀ k p o x, w.bridge.isSystemGroup k.group = false → Position.decode o = .ok x →
        v.Always (·.bridge.table.query k p = some o) pass →
        (∀ done ch₀ rest', pass ++ [(ch', .step .persister)] = done ++ (ch₀, .step .persister) ::
          rest' → (v.steps done).Resolves .persister k p) →
        (∀ e ∈ pass ++ rest, e.2.resets ⟨k.topic, p⟩ k.group = false) →
        u.Always (CallsSpare · ⟨k.topic, p⟩ k.group x) rest →
        (w.steps es).bridge.store.cursorOf ⟨k.topic, p⟩ k.group = some x := by
  rintro w ⟨s, hs, hover⟩
  have hover : s.isOver = true := hover
  have hended : (w.steps es).InService (·.persister = .ended) := by
    refine ⟨s, hs, ?_⟩
    unfold Service.isOver at hover
    split at hover
    · assumption
    · cases hover
  obtain ⟨lead, ch, es', rfl, hunaware, htold, hidle, hbegun, hleaving⟩ := exists_hears
    ⟨_, rfl, Service.untold_start sweepEvery persistEvery⟩
    ⟨_, rfl, Service.unaware_start sweepEvery persistEvery⟩ hes hended
  have hes' : ∀ e ∈ es', e.2.isServe = false :=
    fun e he ↦ hes e (List.mem_append_right _ (List.mem_cons_of_mem _ he))
  rw [steps_append, steps_cons] at hended
  obtain ⟨pass, ch', rest, rfl, hruns, ⟨c, report, hc, hreport⟩, hleft⟩ :=
    exists_leaves hleaving hes' hended
  refine ⟨lead, ch, pass, ch', rest, rfl, ?_⟩
  intro v u
  refine ⟨⟨htold, ?_, hidle⟩, ⟨?_, hbegun, ?_, c, report, hc, hreport⟩, ?_, fun hevery ↦ ?_,
    fun k p o x huser hx ho hresolves hresets hcalls ↦ ?_⟩
  · exact hunaware.mono fun _ ⟨s, hs, h⟩ ↦ ⟨s, hs, h.unheard⟩
  · obtain ⟨s, hs, h⟩ := hleaving
    exact ⟨s, hs, h.heard⟩
  · refine hruns.mono ?_
    rintro _ ⟨s, hs, -, tickAt, c, hl, -⟩
    rw [callOf_persister hs, hl]
    rfl
  · refine hleft.mono ?_
    rintro _ ⟨s, hs, hl, -⟩
    rw [callOf_persister hs, hl]
    rfl
  · refine hunaware.mono ?_
    rintro _ ⟨s, hs, h⟩
    rw [callOf_persister hs]
    rcases h.unticked hevery with hl | hl
    · rw [hl]
      rfl
    · rw [hl]
      rfl
  · have hw : w.Named := named_step (named_steps (named_new ..) before) .plain _
    have hv : v.Named := named_step (named_steps hw lead) ch _
    have hexclusive : v.Exclusive :=
      exclusive_step (exclusive_steps (exclusive_step (exclusive_steps (exclusive_new now _))))
    have hsweeps : w.SweeperSweeps := fun c hc ↦ by cases hc
    have huser' : v.bridge.isSystemGroup k.group = false := by
      rw [isSystemGroup_step, isSystemGroup_steps, huser]
    have hsaving : (v.steps pass).Saving .persister k p o x :=
      saving_of_leaving hv hexclusive huser' hx (fun e he ↦ hes' e (List.mem_append_left _ he))
        hruns ho
        (fun done ch₀ rest' heq ↦ hresolves done ch₀ (rest' ++ [(ch', .step .persister)])
          (by rw [heq, List.append_assoc, List.cons_append]))
        (fun e he ↦ hresets e (List.mem_append_left _ he)) (.waits hbegun .begun)
    have hgrants : (v.steps pass).Grants .persister ch' (.step .persister) k p o x :=
      grants_of_named (named_steps hv pass) (exclusive_steps hexclusive)
        (by rw [isSystemGroup_steps, huser']) ho.stop (fun _ ↦ hresolves pass ch' [] rfl) rfl ch'
    have hwritten : u.bridge.store.cursorOf ⟨k.topic, p⟩ k.group = some x :=
      hgrants.written_of_answered hx hsaving hc hreport (run_of_callOf hc ch').1
    have hstays := cursorOf_of_left (named_step (named_steps hv pass) ch' _)
      (sweeperSweeps_step (sweeperSweeps_steps (sweeperSweeps_step
        (sweeperSweeps_steps hsweeps lead) ch _) pass) ch' _) hleft hcalls
      (fun e he ↦ hresets e (List.mem_append_right _ he)) hwritten
    rw [steps_append, steps_cons, steps_append, steps_cons]
    exact hstays

/-- A bridge in service, without an interval for its persist loop, where a group has committed. -/
def oneCommit : World :=
  ((new 0 (.new ⟨["__"], .standard, 3000⟩ (.new "owner-1" ∅) none)).steps
    [(.plain, .operate (.createPartition ⟨"t", 0⟩)), (.plain, .operate (.register ⟨"t", 0⟩)),
      (.plain, .operate (.commit ⟨"g", "t"⟩ 0 268435461))]).step .plain (.serve 60000 0)

/-- Both loops begin to wait and hear the signal, and one pass persists. -/
def shutsDown : List (Choice × Event) :=
  [(.plain, .step .persister), (.plain, .step .sweeper), (.plain, .stop),
    (.plain, .step .persister), (.plain, .step .persister), (.plain, .step .persister),
    (.plain, .step .sweeper)]

theorem stands_after_shutdown : (oneCommit.steps shutsDown).InService (·.isOver = true) ∧
    (oneCommit.steps shutsDown).bridge.store.cursorOf ⟨"t", 0⟩ "g" = some ⟨1, 5⟩ := by
  have hover : (oneCommit.steps shutsDown).InService (·.isOver = true) := ⟨_, rfl, rfl⟩
  have hidle : ∀ v : World, v.callOf .persister = none →
      v.Resolves .persister ⟨"g", "t"⟩ 0 := by
    intro v hnone c t s r hc
    cases hnone.symm.trans hc
  have hcalls : ∀ v : World, v.calls = ∅ → v.CallsSpare ⟨"t", 0⟩ "g" ⟨1, 5⟩ := by
    intro v hempty n c t s hc
    simp [hempty] at hc
  have hall : oneCommit.Always (fun v ↦ v.bridge.table.query ⟨"g", "t"⟩ 0 = some 268435461 ∧
      v.Resolves .persister ⟨"g", "t"⟩ 0 ∧ v.CallsSpare ⟨"t", 0⟩ "g" ⟨1, 5⟩) shutsDown := by
    refine .cons ⟨rfl, hidle _ rfl, hcalls _ rfl⟩ (.cons ⟨rfl, hidle _ rfl, hcalls _ rfl⟩
      (.cons ⟨rfl, hidle _ rfl, hcalls _ rfl⟩ (.cons ⟨rfl, hidle _ rfl, hcalls _ rfl⟩
        (.cons ⟨rfl, ?_, hcalls _ rfl⟩ (.cons ⟨rfl, ?_, hcalls _ rfl⟩
          (.cons ⟨rfl, hidle _ rfl, hcalls _ rfl⟩
            (always_nil ⟨rfl, hidle _ rfl, hcalls _ rfl⟩)))))))
    · intro c t s r hc hh
      cases hc
      cases hh
    · intro c t s r hc hh
      cases hc
      cases hh
      exact fun _ _ ↦ ⟨0, rfl, rfl⟩
  have hresets : ∀ e ∈ shutsDown, e.2.resets ⟨"t", 0⟩ "g" = false := by decide
  obtain ⟨lead, ch, pass, ch', rest, heq, -, -, -, -, hdurable⟩ :=
    shutdown_is_durable 0 ⟨["__"], .standard, 3000⟩ "owner-1" ∅ none
      [(.plain, .operate (.createPartition ⟨"t", 0⟩)), (.plain, .operate (.register ⟨"t", 0⟩)),
        (.plain, .operate (.commit ⟨"g", "t"⟩ 0 268435461))] shutsDown 60000 0 (by decide) hover
  rw [heq] at hall hresets
  have hpass := hall.right.tail
  refine ⟨hover, hdurable ⟨"g", "t"⟩ 0 268435461 ⟨1, 5⟩ rfl rfl (hpass.left.mono fun _ h ↦ h.1)
    (fun done ch₀ rest' hdone ↦ ?_) (fun e he ↦ hresets e ?_)
    (hpass.right.tail.mono fun _ h ↦ h.2.2)⟩
  · have hprefix := congrArg (· ++ rest) hdone
    exact (hpass done ((ch₀, .step .persister) :: (rest' ++ rest)) (by simpa using hprefix)).2.1
  · rcases List.mem_append.mp he with hmem | hmem <;> simp [hmem]

end World

end GroupOffsets
