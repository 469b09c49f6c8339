import GroupOffsets.Proofs.Call

/-!
# What an event does

The calls of the users and the passes of the service's loops are the same machines; `World.callOf`
is the one that a task runs.  An event touches at most one of them, and it changes the bridge only
through an operation, a resolution, a step of a call, or a call that is given up.  `World.Move` says
so, and invariants of runs are proved by its cases.
-/

namespace GroupOffsets

/-! ## Loops -/

namespace Loop

/-- The pass that a loop is in the midst of. -/
def pass? : Loop → Option Call
  | passing _ pass => some pass
  | _ => none

theorem pass?_eq_some {l : Loop} {c : Call} (h : l.pass? = some c) :
    ∃ tickAt, l = .passing tickAt c := by
  cases l with
  | passing tickAt pass =>
      cases h
      exact ⟨tickAt, rfl⟩
  | _ => cases h

/-- What a step makes of a loop and of the bridge: no pass runs after it, or one begins, or the one
that runs goes on. -/
inductive Goes (b : Bridge) (order : Itinerary) (now : Nat) (l : Loop) (b' : Bridge) (l' : Loop) :
    Prop
  | rests (bridge : b' = b) (pass : l'.pass? = none)
  | begins {r : Request} (bridge : b' = b) (pass : l'.pass? = some (.begun r))
  | passes {c : Call} (was : l.pass? = some c) (bridge : b' = (b.stepCall order now c).1)
      (pass : l'.pass? = some (b.stepCall order now c).2 ∨ l'.pass? = none)

end Loop

namespace Service

variable (s : Service) (b : Bridge) (tickFirst : Bool) (order : Itinerary) (now : Nat)

section Passing

variable {s} {tickAt : Option Nat} {c : Call}

/-- A pass of the sweep loop goes on like any call, and is forgotten when it is done. -/
theorem stepSweeper_of_passing (hl : s.sweeper = .passing tickAt c) :
    (s.stepSweeper b tickFirst order now).1 = (b.stepCall order now c).1 ∧
      ((s.stepSweeper b tickFirst order now).2.sweeper.pass? = some (b.stepCall order now c).2 ∨
        (s.stepSweeper b tickFirst order now).2.sweeper.pass? = none ∧
          (b.stepCall order now c).2.reply?.isSome = true) := by
  rw [stepSweeper, hl]
  refine ⟨rfl, ?_⟩
  cases hreply : (b.stepCall order now c).2.reply? with
  | some r => exact .inr ⟨by simp only [hreply, Loop.pass?], rfl⟩
  | none => exact .inl (by simp only [hreply, Loop.pass?])

/-- A pass of the persist loop goes on like any call, and is forgotten when it is done. -/
theorem stepPersister_of_passing (hl : s.persister = .passing tickAt c) :
    (s.stepPersister b tickFirst order now).1 = (b.stepCall order now c).1 ∧
      ((s.stepPersister b tickFirst order now).2.persister.pass? =
          some (b.stepCall order now c).2 ∨
        (s.stepPersister b tickFirst order now).2.persister.pass? = none ∧
          (b.stepCall order now c).2.reply?.isSome = true) := by
  rw [stepPersister, hl]
  refine ⟨rfl, ?_⟩
  cases hreply : (b.stepCall order now c).2.reply? with
  | some r =>
      refine .inr ⟨?_, rfl⟩
      dsimp only
      rw [hreply]
      dsimp only
      split <;> rfl
  | none => exact .inl (by simp only [hreply, Loop.pass?])

end Passing

theorem goes_stepSweeper :
    Loop.Goes b order now s.sweeper (s.stepSweeper b tickFirst order now).1
        (s.stepSweeper b tickFirst order now).2.sweeper ∧
      (s.stepSweeper b tickFirst order now).2.persister = s.persister := by
  rw [stepSweeper]
  cases hl : s.sweeper with
  | begun =>
      refine ⟨.rests rfl ?_, rfl⟩
      dsimp only
      split <;> rfl
  | idle tickAt =>
      dsimp only
      split
      · exact ⟨.rests rfl (hl ▸ rfl), rfl⟩
      · exact ⟨.begins rfl rfl, rfl⟩
      · exact ⟨.rests rfl rfl, rfl⟩
  | passing tickAt pass =>
      refine ⟨.passes rfl rfl ?_, rfl⟩
      dsimp only
      split
      · exact .inr rfl
      · exact .inl rfl
  | ended => exact ⟨.rests rfl (by simp [hl, Loop.pass?]), rfl⟩

theorem goes_stepPersister :
    Loop.Goes b order now s.persister (s.stepPersister b tickFirst order now).1
        (s.stepPersister b tickFirst order now).2.persister ∧
      (s.stepPersister b tickFirst order now).2.sweeper = s.sweeper := by
  rw [stepPersister]
  cases hl : s.persister with
  | begun => exact ⟨.rests rfl rfl, rfl⟩
  | idle tickAt =>
      dsimp only
      split
      · exact ⟨.rests rfl (hl ▸ rfl), rfl⟩
      · exact ⟨.begins rfl rfl, rfl⟩
      · exact ⟨.begins rfl rfl, rfl⟩
  | passing tickAt pass =>
      dsimp only
      split
      · split
        · exact ⟨.passes rfl rfl (.inr rfl), rfl⟩
        · exact ⟨.passes rfl rfl (.inr rfl), rfl⟩
      · exact ⟨.passes rfl rfl (.inl rfl), rfl⟩
  | ended => exact ⟨.rests rfl (by simp [hl, Loop.pass?]), rfl⟩

end Service

/-! ## Worlds -/

namespace World

/-- The call that a task runs. -/
def callOf (w : World) : Task → Option Call
  | .flight _ => none
  | .call n => w.calls[n]?
  | .sweeper => w.service.bind (·.sweeper.pass?)
  | .persister => w.service.bind (·.persister.pass?)

/-- What an event makes of a world, as far as its bridge and its calls go. -/
inductive Move (w : World) (ch : Choice) (w' : World) : Event → Prop
  | operates {op : Operation} (bridge : w'.bridge = (w.bridge.operate op).2)
      (calls : w'.callOf = w.callOf) : Move w ch w' (.operate op)
  | flies {n : Nat} (bridge : w'.bridge = w.bridge.stepFlight ch.draw w.now n)
      (calls : w'.callOf = w.callOf) : Move w ch w' (.step (.flight n))
  /-- A call goes on.  A pass of a loop is forgotten when it has its answer. -/
  | goes {τ : Task} {c : Call} (was : w.callOf τ = some c)
      (bridge : w'.bridge = (w.bridge.stepCall ch.order w.now c).1)
      (self : w'.callOf τ = some (w.bridge.stepCall ch.order w.now c).2 ∨ w'.callOf τ = none)
      (others : ∀ τ', τ' ≠ τ → w'.callOf τ' = w.callOf τ') : Move w ch w' (.step τ)
  | cancels {n : Nat} {c : Call} (was : w.callOf (.call n) = some c)
      (bridge : w'.bridge = w.bridge.cancelCall c) (self : w'.callOf (.call n) = none)
      (others : ∀ τ', τ' ≠ .call n → w'.callOf τ' = w.callOf τ') : Move w ch w' (.cancel n)
  /-- A new call, or a new pass of a loop. -/
  | begins {e : Event} {τ : Task} {r : Request} (bridge : w'.bridge = w.bridge)
      (self : w'.callOf τ = some (.begun r))
      (others : ∀ τ', τ' ≠ τ → w'.callOf τ' = w.callOf τ') : Move w ch w' e
  /-- Nothing moves; at most the passes of an old service are forgotten. -/
  | idles {e : Event} (bridge : w'.bridge = w.bridge)
      (calls : ∀ τ c, w'.callOf τ = some c → w.callOf τ = some c) : Move w ch w' e

variable {w w' : World} {ch : Choice}

theorem Move.of_goes {τ : Task} {l l' : Loop} (h : Loop.Goes w.bridge ch.order w.now l w'.bridge l')
    (hl : w.callOf τ = l.pass?) (hl' : w'.callOf τ = l'.pass?)
    (others : ∀ τ', τ' ≠ τ → w'.callOf τ' = w.callOf τ') : Move w ch w' (.step τ) := by
  cases h with
  | rests bridge pass =>
      apply Move.idles bridge
      intro τ' c hc
      by_cases hτ : τ' = τ
      · rw [hτ, hl', pass] at hc
        cases hc
      · rwa [others τ' hτ] at hc
  | begins bridge pass => exact .begins bridge (hl'.trans pass) others
  | passes was bridge pass =>
      exact .goes (hl.trans was) bridge (pass.imp hl'.trans hl'.trans) others

theorem move_idle {e : Event} (h : w' = w) : Move w ch w' e := h ▸ .idles rfl fun _ _ hc ↦ hc

/-- A step of a task leaves the calls of the others alone. -/
theorem callOf_run_of_ne (w : World) (ch : Choice) {τ τ' : Task} (h : τ' ≠ τ) :
    (w.run ch τ).callOf τ' = w.callOf τ' := by
  cases τ with
  | flight n => cases τ' <;> rfl
  | call n =>
      cases hc : w.calls[n]? with
      | none => simp only [run, hc]
      | some c =>
          cases τ' with
          | call m =>
              have hm : n ≠ m := fun heq ↦ h (heq ▸ rfl)
              simp [callOf, run, hc, Std.ExtTreeMap.getElem?_insert,
                Std.LawfulEqCmp.compare_eq_iff_eq, hm]
          | _ => simp only [callOf, run, hc]
  | sweeper =>
      cases hs : w.service with
      | none => simp only [run, hs]
      | some s =>
          have hgoes := s.goes_stepSweeper w.bridge ch.tickFirst ch.order w.now
          cases τ' with
          | sweeper => exact absurd rfl h
          | persister => simp [callOf, run, hs, hgoes.2]
          | _ => simp only [callOf, run, hs]
  | persister =>
      cases hs : w.service with
      | none => simp only [run, hs]
      | some s =>
          have hgoes := s.goes_stepPersister w.bridge ch.tickFirst ch.order w.now
          cases τ' with
          | persister => exact absurd rfl h
          | sweeper => simp [callOf, run, hs, hgoes.2]
          | _ => simp only [callOf, run, hs]

/-- A task that runs a call takes it one step on.  What it forgets is answered. -/
theorem run_of_callOf {τ : Task} {c : Call} (hc : w.callOf τ = some c) (ch : Choice) :
    (w.run ch τ).bridge = (w.bridge.stepCall ch.order w.now c).1 ∧
      ((w.run ch τ).callOf τ = some (w.bridge.stepCall ch.order w.now c).2 ∨
        (w.run ch τ).callOf τ = none ∧
          (w.bridge.stepCall ch.order w.now c).2.reply?.isSome = true) := by
  cases τ with
  | flight n => cases hc
  | call n =>
      exact ⟨bridge_run_call hc, .inl (calls_run_call hc)⟩
  | sweeper =>
      obtain ⟨s, hs, hpass⟩ := Option.bind_eq_some_iff.mp hc
      obtain ⟨tickAt, hl⟩ := Loop.pass?_eq_some hpass
      simpa only [run, hs, callOf, Option.bind_some] using
        Service.stepSweeper_of_passing w.bridge ch.tickFirst ch.order w.now hl
  | persister =>
      obtain ⟨s, hs, hpass⟩ := Option.bind_eq_some_iff.mp hc
      obtain ⟨tickAt, hl⟩ := Loop.pass?_eq_some hpass
      simpa only [run, hs, callOf, Option.bind_some] using
        Service.stepPersister_of_passing w.bridge ch.tickFirst ch.order w.now hl

theorem move_run (τ : Task) : Move w ch (w.run ch τ) (.step τ) := by
  cases τ with
  | flight n => exact .flies rfl (by funext τ; cases τ <;> rfl)
  | call n =>
      cases hc : w.calls[n]? with
      | none => exact move_idle (by simp only [run, hc])
      | some c =>
          exact .goes (c := c) hc (bridge_run_call hc) (.inl (calls_run_call hc))
            fun _ ↦ callOf_run_of_ne w ch
  | sweeper =>
      cases hs : w.service with
      | none => exact move_idle (by simp only [run, hs])
      | some s =>
          have hgoes := s.goes_stepSweeper w.bridge ch.tickFirst ch.order w.now
          refine .of_goes (l := s.sweeper) ?_ (by simp [callOf, hs])
            (by simp [callOf, run, hs]; rfl) fun _ ↦ callOf_run_of_ne w ch
          simpa only [run, hs] using hgoes.1
  | persister =>
      cases hs : w.service with
      | none => exact move_idle (by simp only [run, hs])
      | some s =>
          have hgoes := s.goes_stepPersister w.bridge ch.tickFirst ch.order w.now
          refine .of_goes (l := s.persister) ?_ (by simp [callOf, hs])
            (by simp [callOf, run, hs]; rfl) fun _ ↦ callOf_run_of_ne w ch
          simpa only [run, hs] using hgoes.1

/-- A task that runs neither a call nor a resolution does nothing to the bridge. -/
theorem bridge_run_of_none {τ : Task} (hc : w.callOf τ = none) (hτ : ∀ n, τ ≠ .flight n)
    (ch : Choice) : (w.run ch τ).bridge = w.bridge := by
  have hmove : Move w ch (w.run ch τ) (.step τ) := move_run τ
  cases hmove with
  | flies bridge calls => exact absurd rfl (hτ _)
  | goes was bridge self others => cases hc.symm.trans was
  | begins bridge self others => exact bridge
  | idles bridge calls => exact bridge

theorem callOf_call_of_ne (r : Request) {τ : Task} (h : τ ≠ .call w.nextCall) :
    (w.call r).2.callOf τ = w.callOf τ := by
  cases τ with
  | call m =>
      have hm : w.nextCall ≠ m := fun heq ↦ h (heq ▸ rfl)
      simp [callOf, call, Std.ExtTreeMap.getElem?_insert, Std.LawfulEqCmp.compare_eq_iff_eq, hm]
  | _ => rfl

theorem callOf_cancel_of_ne {n : Nat} {τ : Task} (h : τ ≠ .call n) :
    (w.cancel n).callOf τ = w.callOf τ := by
  rw [cancel]
  split
  · rfl
  · cases τ with
    | call m =>
        have hm : n ≠ m := fun heq ↦ h (heq ▸ rfl)
        simp [callOf, Std.ExtTreeMap.getElem?_erase, Std.LawfulEqCmp.compare_eq_iff_eq, hm]
    | _ => rfl

/-- A service that is told to stop goes on with its passes. -/
theorem callOf_stop (τ : Task) : (w.step ch .stop).callOf τ = w.callOf τ := by
  cases τ with
  | sweeper => exact Option.bind_map
  | persister => exact Option.bind_map
  | _ => rfl

/-- Every event is one of these moves. -/
theorem move_step (e : Event) : Move w ch (w.step ch e) e := by
  cases e with
  | operate op => exact .operates rfl (by funext τ; cases τ <;> rfl)
  | call r =>
      exact .begins (τ := .call w.nextCall) (r := r) rfl (w.calls_call r)
        fun _ ↦ callOf_call_of_ne r
  | step τ => exact move_run τ
  | cancel n =>
      cases hc : w.calls[n]? with
      | none => exact move_idle (by simp only [step, cancel, hc])
      | some c =>
          exact .cancels hc (by simp only [step, cancel, hc]) calls_cancel
            fun _ ↦ callOf_cancel_of_ne
  | serve sweepEvery persistEvery =>
      refine Move.idles rfl ?_
      intro τ c hc
      cases τ with
      | sweeper => cases hc
      | persister => cases hc
      | _ => exact hc
  | stop => exact .idles rfl fun τ c hc ↦ callOf_stop τ ▸ hc
  | elapse ms => exact .idles rfl fun τ c hc ↦ by cases τ <;> exact hc

/-- Where a call after an event comes from: it was there before, or is new, or is one step on. -/
theorem callOf_step_cases {e : Event} {τ : Task} {c' : Call}
    (hc : (w.step ch e).callOf τ = some c') : w.callOf τ = some c' ∨ (∃ r, c' = .begun r) ∨
      ∃ c, w.callOf τ = some c ∧ c' = (w.bridge.stepCall ch.order w.now c).2 := by
  have hmove : Move w ch (w.step ch e) e := move_step e
  generalize w.step ch e = w' at hmove hc
  cases hmove with
  | operates bridge calls => exact .inl (calls ▸ hc)
  | flies bridge calls => exact .inl (calls ▸ hc)
  | @goes τ' c was bridge self others =>
      by_cases hτ : τ = τ'
      · subst hτ
        rcases self with hself | hnone
        · exact .inr (.inr ⟨c, was, Option.some.inj (hc.symm.trans hself)⟩)
        · cases hnone.symm.trans hc
      · exact .inl (others τ hτ ▸ hc)
  | @cancels n c was bridge self others =>
      by_cases hτ : τ = .call n
      · subst hτ
        cases self.symm.trans hc
      · exact .inl (others τ hτ ▸ hc)
  | @begins e τ' r bridge self others =>
      by_cases hτ : τ = τ'
      · subst hτ
        exact .inr (.inl ⟨r, Option.some.inj (hc.symm.trans self)⟩)
      · exact .inl (others τ hτ ▸ hc)
  | idles bridge calls => exact .inl (calls τ c' hc)

/-- A task that waits after an event has waited before, or joins the resolution now. -/
theorem waiting_step_cases {e : Event} {τ : Task} {p : Purpose} {n d : Nat}
    (hc : (w.step ch e).callOf τ = some (.waiting p n d)) :
    w.callOf τ = some (.waiting p n d) ∨
      e = .step τ ∧ w.callOf τ = some (.asking p) ∧ w.bridge.cache.get? p.target = none ∧
        (w.step ch e).bridge = (w.bridge.joinFlight p.target).2 ∧
        n = (w.bridge.joinFlight p.target).1 ∧ d = w.now + w.bridge.settings.callerWait := by
  have hmove : Move w ch (w.step ch e) e := move_step e
  generalize w.step ch e = w' at hmove hc ⊢
  cases hmove with
  | operates bridge calls => exact .inl (calls ▸ hc)
  | flies bridge calls => exact .inl (calls ▸ hc)
  | @goes τ' c was bridge self others =>
      by_cases hτ : τ = τ'
      · subst hτ
        rcases self with hself | hnone
        · rcases Bridge.waiting_of_stepCall (Option.some.inj (hself.symm.trans hc)) with
            rfl | ⟨rfl, hmissing, hb, hn, hd⟩
          · exact .inl was
          · exact .inr ⟨rfl, was, hmissing, bridge.trans hb, hn, hd⟩
        · cases hnone.symm.trans hc
      · exact .inl (others τ hτ ▸ hc)
  | @cancels n c was bridge self others =>
      by_cases hτ : τ = .call n
      · subst hτ
        cases self.symm.trans hc
      · exact .inl (others τ hτ ▸ hc)
  | @begins e τ' r bridge self others =>
      by_cases hτ : τ = τ'
      · subst hτ
        cases self.symm.trans hc
      · exact .inl (others τ hτ ▸ hc)
  | idles bridge calls => exact .inl (calls _ _ hc)

end World

end GroupOffsets
