import GroupOffsets.Proofs.Frame
import GroupOffsets.Proofs.Sweep.Run

/-!
# What races with a sweep pass

A pass looks at an entry once: at that moment it asks whether the group subscribes, and copies the
entry.  When it has all its minima, which may be much later, it removes the entry if the table
still holds what was copied.  So a subscription that comes in between does not save the entry, and
a commit saves it only if it leaves the entry different from the copy.
-/

namespace GroupOffsets

open World (Choice Event)

/-! ## What decides about an entry -/

namespace Sweep

variable {order : Itinerary} {t t' : OffsetTable} {subscriptions : Subscriptions} {s : Sweep}
variable {min : Attempt Offset} {progress : Progress Sweep (List GroupTopic)}
variable {k : GroupTopic} {removed keys : List GroupTopic}

/-- The minimum completes the evidence against the entry. -/
def Condemns (s : Sweep) (min : Attempt Offset) : Prop :=
  s.rest = [] ∧ ∃ m, min = .ok m ∧ s.asked.2 ≤ m

/-- The pass does not come back to an entry. -/
def IsPast (k : GroupTopic) : Progress Sweep (List GroupTopic) → Prop
  | .asks s => k ∉ s.key :: s.keys
  | .done _ => True

theorem isPast_advance (hk : k ∉ keys) : IsPast k (advance order t subscriptions removed keys) := by
  obtain h | ⟨s, h, hs⟩ := advance_cases order t subscriptions removed keys
  · rw [h]
    trivial
  · rw [h]
    exact fun hmem ↦ hk (hs.suffix.mem hmem)

/-- An entry that the pass has behind it is safe from it. -/
theorem Step.past (h : Step order t subscriptions s min t' progress) (hk : k ∉ s.key :: s.keys) :
    t'.partitions k = t.partitions k ∧ IsPast k progress := by
  have hkey : k ≠ s.key := List.ne_of_not_mem_cons hk
  have hkeys : k ∉ s.keys := List.not_mem_of_not_mem_cons hk
  cases h with
  | next _ _ => exact ⟨rfl, hk⟩
  | removes _ _ _ => exact ⟨OffsetTable.partitions_erase_of_ne hkey, isPast_advance hkeys⟩
  | spares _ => exact ⟨rfl, isPast_advance hkeys⟩

/-- The entry that the pass looks at is dropped if it is condemned and still what was copied. -/
theorem Step.decides (h : Step order t subscriptions s min t' progress)
    (hnodup : (s.key :: s.keys).Nodup) :
    (∃ s', progress = .asks s' ∧ s'.key = s.key ∧ s'.copy = s.copy ∧ t' = t ∧ ¬ s.Condemns min) ∨
      IsPast s.key progress ∧
        (s.Condemns min ∧ t.partitions s.key = some s.copy ∧ t' = t.erase s.key ∨
          ¬ (s.Condemns min ∧ t.partitions s.key = some s.copy) ∧ t' = t) := by
  have hkeys : s.key ∉ s.keys := (List.nodup_cons.mp hnodup).1
  cases h with
  | next _ more =>
      refine .inl ⟨_, rfl, rfl, rfl, rfl, fun hc ↦ ?_⟩
      cases hc.1.symm.trans more
  | removes behind last same =>
      exact .inr ⟨isPast_advance hkeys, .inl ⟨⟨last, _, rfl, behind⟩, same, rfl⟩⟩
  | spares why =>
      refine .inr ⟨isPast_advance hkeys, .inr ⟨?_, rfl⟩⟩
      rintro ⟨⟨_, m, hm, hle⟩, hsame⟩
      exact (why m hm hle).2 hsame

/-- Where a pass looks at an entry after a step, it did so before, or it has just begun to. -/
theorem Step.looks {s' : Sweep} (h : Step order t subscriptions s min t' (.asks s')) :
    s'.key = s.key ∧ s'.copy = s.copy ∨
      t'.partitions s'.key = some s'.copy ∧ s'.key ∉ subscriptions := by
  have hadvance : ∀ {removed}, advance order t' subscriptions removed s.keys = .asks s' →
      t'.partitions s'.key = some s'.copy ∧ s'.key ∉ subscriptions := by
    intro removed heq
    obtain h | ⟨s'', h, hs⟩ := advance_cases order t' subscriptions removed s.keys
    · cases h.symm.trans heq
    · cases h.symm.trans heq
      exact ⟨hs.copied, hs.unsubscribed⟩
  generalize hp : Progress.asks s' = progress at h
  cases h with
  | next _ _ =>
      cases hp
      exact .inl ⟨rfl, rfl⟩
  | removes _ _ _ => exact .inr (hadvance hp.symm)
  | spares _ => exact .inr (hadvance hp.symm)

end Sweep

namespace World

variable {w : World} {n : Nat} {ch : Choice} {e : Event} {s : Sweep} {k : GroupTopic}
variable {found : List Finding} {removed : List GroupTopic}

/-- The next step of call `n` completes the evidence against the entry that its pass looks at. -/
def Condemns (w : World) (n : Nat) (s : Sweep) : Prop :=
  w.sweep? n = some s ∧ ∃ f, w.finding? n = some f ∧ s.Condemns f.minimum

/-- The pass of call `n` does not come back to an entry. -/
structure HasPast (w : World) (n : Nat) (k : GroupTopic) : Prop where
  ran : w.calls[n]? ≠ some (.begun .sweep)
  past : ∀ s, w.sweep? n = some s → k ∉ s.key :: s.keys

theorem hasPast_of_calls {progress : Progress Sweep (List GroupTopic)}
    (hp : Sweep.IsPast k progress)
    (hcalls : w.calls[n]? = some (Bridge.continueSweep progress)) : w.HasPast n k := by
  cases progress with
  | asks s =>
      constructor
      · rw [hcalls]
        intro h
        cases h
      · intro s' hs'
        simp only [sweep?, hcalls] at hs'
        cases hs'
        exact hp
  | done removed =>
      constructor
      · rw [hcalls]
        intro h
        cases h
      · intro s' hs'
        simp only [sweep?, hcalls] at hs'
        cases hs'

/-- A step of a pass that looks at an entry stays there, or decides. -/
theorem run_decides (ch : Choice) (h : Sweep.Stage found removed w.calls[n]?)
    (hs : w.sweep? n = some s) :
    (∃ s', (w.run ch (.call n)).sweep? n = some s' ∧ s'.key = s.key ∧ s'.copy = s.copy ∧
        (w.run ch (.call n)).bridge.table = w.bridge.table ∧ ¬ w.Condemns n s) ∨
      (w.run ch (.call n)).HasPast n s.key ∧
        (w.Condemns n s ∧ w.bridge.table.partitions s.key = some s.copy ∧
            (w.run ch (.call n)).bridge.table = w.bridge.table.erase s.key ∨
          ¬ (w.Condemns n s ∧ w.bridge.table.partitions s.key = some s.copy) ∧
            (w.run ch (.call n)).bridge.table = w.bridge.table) := by
  obtain ⟨-, ⟨hf, ht, hs'⟩ | ⟨min, progress, hf, hstep, hcalls⟩⟩ := run_sweep ch hs
  · refine .inl ⟨s, hs', rfl, rfl, ht, ?_⟩
    rintro ⟨-, f, hf', -⟩
    cases hf.symm.trans hf'
  · have hiff : w.Condemns n s ↔ s.Condemns min := by
      constructor
      · rintro ⟨-, f, hf', hc⟩
        cases hf.symm.trans hf'
        exact hc
      · exact fun hc ↦ ⟨hs, _, hf, hc⟩
    have hnodup : (s.key :: s.keys).Nodup := by
      obtain ⟨c, hc, hp⟩ := sweep?_eq_some.mp hs
      exact ((h.sound hc hp).clean.sublist (List.sublist_append_right _ _)).nodup
    rw [hiff]
    obtain ⟨s', rfl, hkey, hcopy, ht, hno⟩ | ⟨hpast, hdecided⟩ := hstep.decides hnodup
    · exact .inl ⟨s', sweep?_eq_some.mpr ⟨_, hcalls, rfl⟩, hkey, hcopy, ht, hno⟩
    · exact .inr ⟨hasPast_of_calls hpast hcalls, hdecided⟩

/-- An entry is dropped if the pass condemns it and the table still holds what was copied.  Nobody
asks for the subscriptions at this point. -/
theorem mem_drops_iff (h : Sweep.Stage found removed w.calls[n]?) : k ∈ w.drops n ch ↔
    ∃ s, w.Condemns n s ∧ s.key = k ∧ w.bridge.table.partitions k = some s.copy := by
  have hnone : (w.run ch (.call n)).bridge.table = w.bridge.table →
      (∀ s, w.Condemns n s → w.bridge.table.partitions s.key ≠ some s.copy) →
      (k ∈ w.drops n ch ↔
        ∃ s, w.Condemns n s ∧ s.key = k ∧ w.bridge.table.partitions k = some s.copy) := by
    intro ht hno
    rw [drops_of_table_eq ht]
    constructor
    · intro hk
      cases hk
    · rintro ⟨s, hs, rfl, hsame⟩
      exact absurd hsame (hno s hs)
  cases hs : w.sweep? n with
  | none =>
      refine hnone (table_run_of_stage ch h hs) fun s hcond ↦ ?_
      cases hs.symm.trans hcond.1
  | some s =>
      have hunique : ∀ {s'}, w.Condemns n s' → s' = s := fun hcond ↦
        Option.some.inj (hcond.1.symm.trans hs)
      rcases run_decides ch h hs with
        ⟨s', hs', hkey, hcopy, ht, hno⟩ | ⟨-, ⟨hcond, hsame, ht⟩ | ⟨hno, ht⟩⟩
      · exact hnone ht fun s' hcond ↦ (hno (hunique hcond ▸ hcond)).elim
      · rw [drops_of_table_erase ht (by simp [hsame]), List.mem_singleton]
        constructor
        · rintro rfl
          exact ⟨s, hcond, rfl, hsame⟩
        · rintro ⟨s', hcond', rfl, -⟩
          rw [hunique hcond']
      · refine hnone ht fun s' hcond hsame ↦ ?_
        obtain rfl := hunique hcond
        exact hno ⟨hcond, hsame⟩

/-! ## Subscriptions -/

/-- The step of call `n` makes its pass look at the entry of `k` and copy it. -/
structure TakesCopy (w : World) (n : Nat) (ch : Choice) (k : GroupTopic) (copy : PartitionOffsets) :
    Prop where
  looks : ∃ s, (w.run ch (.call n)).sweep? n = some s ∧ s.key = k ∧ s.copy = copy
  copied : (w.run ch (.call n)).bridge.table.partitions k = some copy
  unsubscribed : k ∉ w.bridge.subscriptions

theorem sweep?_step_of_ne (hn : n < w.nextCall) (hne : e ≠ .step (.call n))
    (hs : (w.step ch e).sweep? n = some s) : w.sweep? n = some s := by
  by_cases hcancel : e = .cancel n
  · rw [hcancel, sweep?, calls_cancel] at hs
    cases hs
  · rwa [sweep?, calls_step_of_ne hn hne hcancel] at hs

/-- Where a pass looks at an entry, it did so before, or its step has just begun to. -/
theorem sweep?_run (h : Sweep.Stage found removed w.calls[n]?)
    (hs : (w.run ch (.call n)).sweep? n = some s) :
    (∃ s', w.sweep? n = some s' ∧ s.key = s'.key ∧ s.copy = s'.copy) ∨
      w.TakesCopy n ch s.key s.copy := by
  have hasks : ∀ {progress}, (w.run ch (.call n)).calls[n]? = some (Bridge.continueSweep progress) →
      progress = .asks s := by
    intro progress hcalls
    rw [sweep?, hcalls] at hs
    cases progress with
    | asks s' =>
        cases hs
        rfl
    | done _ => cases hs
  cases hs' : w.sweep? n with
  | some s' =>
      obtain ⟨hsub, ⟨-, -, hwait⟩ | ⟨min, progress, -, hstep, hcalls⟩⟩ := run_sweep ch hs'
      · cases hwait.symm.trans hs
        exact .inl ⟨_, rfl, rfl, rfl⟩
      · obtain rfl := hasks hcalls
        rcases hstep.looks with ⟨hkey, hcopy⟩ | ⟨hcopied, hsub⟩
        · exact .inl ⟨s', rfl, hkey, hcopy⟩
        · exact .inr ⟨⟨_, hs, rfl, rfl⟩, hcopied, hsub⟩
  | none =>
      generalize hc : w.calls[n]? = o at h
      cases h with
      | begun =>
          obtain ⟨hb, hcalls⟩ := run_begun_sweep ch hc
          have hadvance := hasks hcalls
          rw [Sweep.start] at hadvance
          obtain hd | ⟨s'', hd, hlooks⟩ := Sweep.advance_cases ch.order
            w.bridge.table w.bridge.subscriptions [] (arrange ch.order.entries w.bridge.table.keys)
          · cases hd.symm.trans hadvance
          · cases hd.symm.trans hadvance
            exact .inr ⟨⟨_, hs, rfl, rfl⟩, hb ▸ hlooks.copied, hlooks.unsubscribed⟩
      | passing purpose _ =>
          rw [sweep?_eq_some.mpr ⟨_, hc, purpose⟩] at hs'
          cases hs'
      | answered _ =>
          simp [run_call_of_some hc, Bridge.stepCall, sweep?, Call.sweep?, Call.purpose?] at hs
      | cancelled _ =>
          rw [run_call_of_none hc, hs'] at hs
          cases hs

/-- The entry that a pass looks at was copied by one of its steps, when the group did not
subscribe. -/
theorem takesCopy_of_sweep (w : World) (es : List (Choice × Event))
    (hs : ((w.call .sweep).2.steps es).sweep? w.nextCall = some s) :
    ∃ seen ch between, es = seen ++ (ch, .step (.call w.nextCall)) :: between ∧
      ((w.call .sweep).2.steps seen).TakesCopy w.nextCall ch s.key s.copy := by
  induction es using List.reverseRecOn generalizing s with
  | nil => simp [sweep?, call, Call.sweep?, Call.purpose?] at hs
  | append_singleton es e ih =>
      obtain ⟨ch, e⟩ := e
      have hstage := stage_steps w es
      have hn : w.nextCall < ((w.call .sweep).2.steps es).nextCall := lt_nextCall_steps_call
      rw [steps_append, steps_cons, steps_nil] at hs
      have earlier : ∀ {s'}, ((w.call .sweep).2.steps es).sweep? w.nextCall = some s' →
          s.key = s'.key → s.copy = s'.copy → ∃ seen ch' between,
            es ++ [(ch, e)] = seen ++ (ch', .step (.call w.nextCall)) :: between ∧
              ((w.call .sweep).2.steps seen).TakesCopy w.nextCall ch' s.key s.copy := by
        intro s' hs' hkey hcopy
        obtain ⟨seen, ch', between, hes, htakes⟩ := ih hs'
        exact ⟨seen, ch', between ++ [(ch, e)], by simp [hes], by rwa [hkey, hcopy]⟩
      by_cases hown : e = .step (.call w.nextCall)
      · subst hown
        rcases sweep?_run hstage hs with ⟨s', hs', hkey, hcopy⟩ | htakes
        · exact earlier hs' hkey hcopy
        · exact ⟨es, ch, [], rfl, htakes⟩
      · exact earlier (sweep?_step_of_ne hn hown hs) rfl rfl

theorem condemns_with_subscriptions {subscriptions : Subscriptions} :
    ({ w with bridge := { w.bridge with subscriptions } } : World).Condemns n s ↔
      w.Condemns n s := by
  have hhanded : ({ w.bridge with subscriptions } : Bridge).handed w.now = w.bridge.handed w.now :=
    funext fun c ↦ Bridge.handed_congr rfl rfl
  have hfinding : ({ w with bridge := { w.bridge with subscriptions } } : World).finding? n =
      w.finding? n := by
    simp only [finding?, hhanded]
    rfl
  rw [Condemns, hfinding]
  rfl

/-- One entry, behind the retained data, in a store that takes its time. -/
def staleEntry : World :=
  (World.new 0 (.new ⟨[], .standard, 3000⟩ (.new "owner-1" ∅) none)).steps
    ([.createPartition ⟨"t", 0⟩, .setRange ⟨"t", 0⟩ ⟨4, 0⟩ ⟨9, 0⟩, .commit ⟨"g", "t"⟩ 0 268435456,
      .setLookupDelay 500].map fun op ↦ (.plain, .operate op))

/-- A sweep pass begins, and waits for the owner of the partition. -/
def sweepWaits : List (Choice × Event) :=
  [.step (.call 0), .step (.call 0), .step (.flight 0)].map fun e ↦ (.plain, e)

/-- The owner has answered, so that the pass can go on. -/
def ownerAnswered : List (Choice × Event) :=
  [.elapse 500, .step (.flight 0)].map fun e ↦ (.plain, e)

/-- A sweep pass is call `n` of a run.  When a step of it drops an entry, the group did not
subscribe at the step that copied the entry; but it does subscribe at the drop if the last that
happened to its subscription in between was to be made.  Indeed the entry is dropped whatever the
subscriptions then are. -/
theorem sweep_removal_ignores_subscription (w : World) (es : List (Choice × Event)) (ch : Choice) :
    let n := w.nextCall
    let v := (w.call .sweep).2
    let u := v.steps es
    ∀ k ∈ u.drops n ch, ∃ seen ch' between copy,
      es = seen ++ (ch', .step (.call n)) :: between ∧
        (v.steps seen).TakesCopy n ch' k copy ∧ u.bridge.table.partitions k = some copy ∧
        (k ∈ u.bridge.subscriptions ↔ subscribesAfter k false between = true) ∧
        ∀ subscriptions : Subscriptions,
          k ∈ ({ u with bridge := { u.bridge with subscriptions } } : World).drops n ch := by
  intro n v u k hk
  have hstage : Sweep.Stage (v.findings n es) (v.removals n es) u.calls[n]? := stage_steps w es
  obtain ⟨s, hcond, rfl, hsame⟩ := (mem_drops_iff hstage).mp hk
  obtain ⟨seen, ch', between, hes, htakes⟩ := takesCopy_of_sweep w es hcond.1
  refine ⟨seen, ch', between, s.copy, hes, htakes, hsame, ?_, fun subscriptions ↦ ?_⟩
  · have hu : u = ((v.steps seen).step ch' (.step (.call n))).steps between := by
      simp [u, hes]
      rfl
    have hfirst : (v.steps seen).bridge.subscriptions.contains s.key = false :=
      Bool.eq_false_iff.mpr (mt Std.ExtTreeSet.contains_iff_mem.mp htakes.unsubscribed)
    rw [← Std.ExtTreeSet.contains_iff_mem, hu, contains_subscriptions_steps,
      contains_subscriptions_step, hfirst]
    rfl
  · exact (mem_drops_iff (w := { u with bridge := { u.bridge with subscriptions } }) hstage).mpr
      ⟨s, condemns_with_subscriptions.mpr hcond, rfl, hsame⟩

theorem sweep_removal_of_late_subscriber :
    let es := sweepWaits ++ (.plain, .operate (.subscribe ⟨"g", "t"⟩)) :: ownerAnswered
    let v := (staleEntry.call .sweep).2
    let n := staleEntry.nextCall
    ⟨"g", "t"⟩ ∈ (v.steps es).drops n .plain ∧
      ∃ seen ch between copy, es = seen ++ (ch, .step (.call n)) :: between ∧
        (v.steps seen).TakesCopy n ch ⟨"g", "t"⟩ copy := by
  intro es v n
  have hdrop : ⟨"g", "t"⟩ ∈ (v.steps es).drops n .plain := by decide
  obtain ⟨seen, ch, between, copy, hes, htakes, -⟩ :=
    sweep_removal_ignores_subscription staleEntry es .plain _ hdrop
  exact ⟨hdrop, seen, ch, between, copy, hes, htakes⟩

/-- A group that subscribes while a pass waits for the owner loses its offset. -/
theorem not_sweep_removes_unsubscribed_only :
    ¬ ∀ (w : World) (es : List (Choice × Event)) (ch : Choice),
      ∀ k ∈ ((w.call .sweep).2.steps es).drops w.nextCall ch,
        k ∉ ((w.call .sweep).2.steps es).bridge.subscriptions := by
  intro h
  exact h staleEntry (sweepWaits ++ (.plain, .operate (.subscribe ⟨"g", "t"⟩)) :: ownerAnswered)
    .plain ⟨"g", "t"⟩ (by decide) (by decide)

/-! ## Commits -/

/-- Some step of call `n` in a run condemns the entry of `k`. -/
def CondemnedIn (w : World) (n : Nat) (k : GroupTopic) (es : List (Choice × Event)) : Prop :=
  ∃ done ch rest s, es = done ++ (ch, .step (.call n)) :: rest ∧ (w.steps done).Condemns n s ∧
    s.key = k

theorem condemnedIn_concat {es : List (Choice × Event)} : w.CondemnedIn n k (es ++ [(ch, e)]) ↔
    w.CondemnedIn n k es ∨
      e = .step (.call n) ∧ ∃ s, (w.steps es).Condemns n s ∧ s.key = k := by
  constructor
  · rintro ⟨done, ch', rest, s, heq, hcond, hkey⟩
    rcases List.eq_nil_or_concat' rest with rfl | ⟨rest, x, rfl⟩
    · obtain ⟨rfl, hx⟩ := List.append_inj' heq rfl
      cases hx
      exact .inr ⟨rfl, s, hcond, hkey⟩
    · rw [← List.cons_append, ← List.append_assoc] at heq
      obtain ⟨rfl, -⟩ := List.append_inj' heq rfl
      exact .inl ⟨done, ch', rest, s, rfl, hcond, hkey⟩
  · rintro (⟨done, ch', rest, s, rfl, hcond, hkey⟩ | ⟨rfl, s, hcond, hkey⟩)
    · exact ⟨done, ch', rest ++ [(ch, e)], s, by simp, hcond, hkey⟩
    · exact ⟨es, ch, [], s, rfl, hcond, hkey⟩

/-- How the entry of `k`, with what a commit has just made of it, fares with a pass that has copied
it: it stands as long as the pass looks at it, and after that unless it was condemned while it was
equal to the copy. -/
inductive Fares (w : World) (n : Nat) (k : GroupTopic) (copy offsets : PartitionOffsets)
    (condemned : Prop) : Prop
  | looks {s : Sweep} (pass : w.sweep? n = some s) (key : s.key = k) (copied : s.copy = copy)
      (stands : w.bridge.table.partitions k = some offsets) (spared : ¬ condemned)
  | stands (past : w.HasPast n k) (stands : w.bridge.table.partitions k = some offsets)
      (spared : ¬ (offsets = copy ∧ condemned))
  | gone (past : w.HasPast n k) (gone : w.bridge.table.partitions k = none) (same : offsets = copy)
      (condemned : condemned)

theorem hasPast_run (ch : Choice) (h : Sweep.Stage found removed w.calls[n]?)
    (hk : w.HasPast n k) :
    (w.run ch (.call n)).HasPast n k ∧
      (w.run ch (.call n)).bridge.table.partitions k = w.bridge.table.partitions k := by
  cases hs : w.sweep? n with
  | some s =>
      have hkeys := hk.past s hs
      obtain ⟨-, ⟨-, ht, hs'⟩ | ⟨min, progress, -, hstep, hcalls⟩⟩ := run_sweep ch hs
      · obtain ⟨c, hc, hp⟩ := sweep?_eq_some.mp hs'
        refine ⟨⟨?_, fun s' hs'' ↦ ?_⟩, by rw [ht]⟩
        · rintro hbegun
          cases hc.symm.trans hbegun
          cases hp
        · cases hs'.symm.trans hs''
          exact hkeys
      · obtain ⟨hsame, hpast⟩ := hstep.past hkeys
        exact ⟨hasPast_of_calls hpast hcalls, hsame⟩
  | none =>
      refine ⟨?_, by rw [table_run_of_stage ch h hs]⟩
      have hself : (w.run ch (.call n)).calls[n]? = w.calls[n]? := by
        generalize hc : w.calls[n]? = o at h
        cases h with
        | begun => exact absurd hc hk.ran
        | passing purpose _ =>
            rw [sweep?_eq_some.mpr ⟨_, hc, purpose⟩] at hs
            cases hs
        | answered _ => simp [run_call_of_some hc, Bridge.stepCall]
        | cancelled _ => rw [run_call_of_none hc, hc]
      exact ⟨hself ▸ hk.ran, fun s hs' ↦ by rw [sweep?, hself, ← sweep?, hs] at hs'; cases hs'⟩

theorem hasPast_step_of_ne (hn : n < w.nextCall) (hne : e ≠ .step (.call n)) (hk : w.HasPast n k) :
    (w.step ch e).HasPast n k := by
  refine ⟨?_, fun s hs ↦ hk.past s (sweep?_step_of_ne hn hne hs)⟩
  by_cases hcancel : e = .cancel n
  · rw [hcancel, calls_cancel]
    intro h
    cases h
  · rw [calls_step_of_ne hn hne hcancel]
    exact hk.ran

variable {copy offsets : PartitionOffsets} {condemned : Prop}

theorem fares_run (h : Sweep.Stage found removed w.calls[n]?)
    (hf : w.Fares n k copy offsets condemned) :
    (w.run ch (.call n)).Fares n k copy offsets
      (condemned ∨ ∃ s, w.Condemns n s ∧ s.key = k) := by
  cases hf with
  | @looks s pass key copied stands spared =>
      subst key copied
      have hunique : ∀ {s'}, w.Condemns n s' → s' = s := fun hcond ↦
        Option.some.inj (hcond.1.symm.trans pass)
      rcases run_decides ch h pass with
        ⟨s', hs', hkey, hcopy, ht, hno⟩ | ⟨hpast, ⟨hcond, hsame, ht⟩ | ⟨hno, ht⟩⟩
      · refine .looks hs' hkey hcopy (by rw [ht, stands]) ?_
        rintro (hc | ⟨s', hcond, -⟩)
        · exact spared hc
        · exact hno (hunique hcond ▸ hcond)
      · have heq : offsets = s.copy := Option.some.inj (stands.symm.trans hsame)
        exact .gone hpast (by rw [ht, OffsetTable.partitions_erase_self]) heq (.inr ⟨s, hcond, rfl⟩)
      · refine .stands hpast (by rw [ht, stands]) ?_
        rintro ⟨heq, hc | ⟨s', hcond, -⟩⟩
        · exact spared hc
        · obtain rfl := hunique hcond
          exact hno ⟨hcond, heq ▸ stands⟩
  | stands past stands spared =>
      obtain ⟨hpast, hsame⟩ := hasPast_run ch h past
      refine .stands hpast (hsame.trans stands) ?_
      rintro ⟨heq, hc | ⟨s, hcond, hkey⟩⟩
      · exact spared ⟨heq, hc⟩
      · exact past.past s hcond.1 (hkey ▸ List.mem_cons_self ..)
  | gone past gone same condemned =>
      obtain ⟨hpast, hsame⟩ := hasPast_run ch h past
      exact .gone hpast (hsame.trans gone) same (.inl condemned)

theorem fares_step_of_ne (hn : n < w.nextCall) (hne : e ≠ .step (.call n))
    (hquiet : (w.step ch e).bridge.table.partitions k = w.bridge.table.partitions k)
    (hf : w.Fares n k copy offsets condemned) :
    (w.step ch e).Fares n k copy offsets condemned := by
  cases hf with
  | @looks s pass key copied stands spared =>
      by_cases hcancel : e = .cancel n
      · refine .stands ⟨?_, fun s' hs' ↦ ?_⟩ (hquiet.trans stands) fun hc ↦ spared hc.2
        · rw [hcancel, calls_cancel]
          intro h
          cases h
        · rw [hcancel, sweep?, calls_cancel] at hs'
          cases hs'
      · refine .looks ?_ key copied (hquiet.trans stands) spared
        rwa [sweep?, calls_step_of_ne hn hne hcancel]
  | stands past stands spared =>
      exact .stands (hasPast_step_of_ne hn hne past) (hquiet.trans stands) spared
  | gone past gone same condemned =>
      exact .gone (hasPast_step_of_ne hn hne past) (hquiet.trans gone) same condemned

/-- Nothing but call `n` changes the entry of `k` in a run. -/
def LeavesEntry (w : World) (n : Nat) (k : GroupTopic) (es : List (Choice × Event)) : Prop :=
  ∀ done ch e rest, es = done ++ (ch, e) :: rest → e ≠ .step (.call n) →
    ((w.steps done).step ch e).bridge.table.partitions k = (w.steps done).bridge.table.partitions k

theorem fares_steps (w : World) (done after : List (Choice × Event))
    (hquiet : ((w.call .sweep).2.steps done).LeavesEntry w.nextCall k after)
    (hf : ((w.call .sweep).2.steps done).Fares w.nextCall k copy offsets False) :
    (((w.call .sweep).2.steps done).steps after).Fares w.nextCall k copy offsets
      (((w.call .sweep).2.steps done).CondemnedIn w.nextCall k after) := by
  induction after using List.reverseRecOn with
  | nil =>
      have hnot : ¬ ((w.call .sweep).2.steps done).CondemnedIn w.nextCall k [] := by
        rintro ⟨_, _, _, _, heq, -⟩
        simp at heq
      rwa [eq_false hnot]
  | append_singleton after e ih =>
      obtain ⟨ch, e⟩ := e
      have hstage := stage_steps w (done ++ after)
      have hn : w.nextCall < ((w.call .sweep).2.steps (done ++ after)).nextCall :=
        lt_nextCall_steps_call
      have hfares := ih fun done' ch' e' rest heq ↦
        hquiet done' ch' e' (rest ++ [(ch, e)]) (by simp [heq])
      rw [steps_append] at hstage hn
      rw [steps_append, steps_cons, steps_nil, propext condemnedIn_concat]
      by_cases hown : e = .step (.call w.nextCall)
      · subst hown
        simp only [true_and]
        exact fares_run hstage hfares
      · simp only [hown, false_and, or_false]
        exact fares_step_of_ne hn hown (hquiet after ch e [] rfl hown) hfares

theorem leavesEntry_nil : w.LeavesEntry n k [] := fun done _ _ _ heq ↦ by simp at heq

theorem leavesEntry_cons {es : List (Choice × Event)} (hes : (w.step ch e).LeavesEntry n k es)
    (he : e ≠ .step (.call n) →
      (w.step ch e).bridge.table.partitions k = w.bridge.table.partitions k) :
    w.LeavesEntry n k ((ch, e) :: es) := by
  intro done ch' e' rest heq hne
  rcases done with _ | ⟨x, done⟩
  · cases heq
    exact he hne
  · cases heq
    exact hes done ch' e' rest rfl hne

/-- A commit to an entry that a sweep pass has copied and not decided on, and after that no other
change of the entry.  The commit is lost if it made the entry what the copy was, and the pass found
every partition of it to be behind the retained data; in every other case it stands. -/
theorem commit_races_sweep (w : World) (before after : List (Choice × Event)) (ch : Choice)
    (k : GroupTopic) (p : Int32) (o : Offset) (s : Sweep) :
    let n := w.nextCall
    let u := (w.call .sweep).2.steps before
    let u' := u.step ch (.operate (.commit k p o))
    let offsets := (u.bridge.table.queryAll k).insert p o
    let last := (u'.steps after).bridge.table
    u.sweep? n = some s → s.key = k → u'.LeavesEntry n k after →
      (offsets ≠ s.copy ∨ ¬ u'.CondemnedIn n k after →
          last.partitions k = some offsets ∧ last.query k p = some o) ∧
        (offsets = s.copy ∧ u'.CondemnedIn n k after →
          last.partitions k = none ∧ last.query k p = none) := by
  intro n u u' offsets last hs hkey hquiet
  have hu' : u' = (w.call .sweep).2.steps (before ++ [(ch, .operate (.commit k p o))]) := by
    rw [steps_append, steps_cons, steps_nil]
  have hfares : (u'.steps after).Fares n k s.copy offsets (u'.CondemnedIn n k after) := by
    have hfirst : u'.Fares n k s.copy offsets False :=
      .looks (s := s) hs hkey rfl OffsetTable.partitions_commit_self not_false
    rw [hu'] at hquiet hfirst ⊢
    exact fares_steps w _ after hquiet hfirst
  have hstands : last.partitions k = some offsets → last.query k p = some o := by
    intro h
    simp [OffsetTable.query_eq_bind, h, offsets]
  cases hfares with
  | looks _ _ _ stands spared =>
      exact ⟨fun _ ↦ ⟨stands, hstands stands⟩, fun h ↦ absurd h.2 spared⟩
  | stands _ stands spared =>
      exact ⟨fun _ ↦ ⟨stands, hstands stands⟩, fun h ↦ absurd h spared⟩
  | gone _ gone same condemned =>
      refine ⟨fun h ↦ ?_, fun _ ↦ ⟨gone, by simp [OffsetTable.query_eq_bind, last, gone]⟩⟩
      exact (h.elim (· same) (· condemned)).elim

theorem leavesEntry_ownerAnswered {ch' : Choice} :
    w.LeavesEntry n k (ownerAnswered ++ [(ch', .step (.call n))]) := by
  refine leavesEntry_cons (leavesEntry_cons (leavesEntry_cons leavesEntry_nil ?_) ?_) ?_
  · exact fun h ↦ absurd rfl h
  · exact fun _ ↦ by simp [step, run]
  · exact fun _ ↦ rfl

/-- The pass waits, and the offset that is stored already is committed again. -/
def recommitted : World :=
  ((staleEntry.call .sweep).2.steps sweepWaits).step .plain
    (.operate (.commit ⟨"g", "t"⟩ 0 268435456))

theorem commit_of_copied_offset_lost :
    (recommitted.steps (ownerAnswered ++
      [(.plain, .step (.call staleEntry.nextCall))])).bridge.table.query ⟨"g", "t"⟩ 0 = none := by
  have hs : ((staleEntry.call .sweep).2.steps sweepWaits).sweep? staleEntry.nextCall =
      some ((((staleEntry.call .sweep).2.steps sweepWaits).sweep? staleEntry.nextCall).get
        (by decide)) := by simp
  have hcond : (recommitted.steps ownerAnswered).Condemns staleEntry.nextCall
      (((recommitted.steps ownerAnswered).sweep? staleEntry.nextCall).get (by decide)) :=
    ⟨by simp, ((recommitted.steps ownerAnswered).finding? staleEntry.nextCall).get (by decide),
      by simp, by decide, 1073741824, by rfl, by decide +kernel⟩
  exact ((commit_races_sweep staleEntry sweepWaits _ .plain ⟨"g", "t"⟩ 0 268435456 _ hs (by decide)
    leavesEntry_ownerAnswered).2
      ⟨OffsetTable.unchanged_iff.mp (by decide), ownerAnswered, .plain, [], _, rfl, hcond,
        by decide⟩).2

/-- A commit of the offset that is stored already does not keep the entry. -/
theorem not_commit_survives_sweep :
    ¬ ∀ (w : World) (before after : List (Choice × Event)) (ch : Choice) (k : GroupTopic)
      (p : Int32) (o : Offset) (s : Sweep),
      ((w.call .sweep).2.steps before).sweep? w.nextCall = some s → s.key = k →
        (((w.call .sweep).2.steps before).step ch (.operate (.commit k p o))).LeavesEntry w.nextCall
          k after →
        ((((w.call .sweep).2.steps before).step ch
          (.operate (.commit k p o))).steps after).bridge.table.query k p = some o := by
  intro h
  have hs : ((staleEntry.call .sweep).2.steps sweepWaits).sweep? 0 =
      some ((((staleEntry.call .sweep).2.steps sweepWaits).sweep? 0).get (by decide)) := by simp
  have hkept := h staleEntry sweepWaits (ownerAnswered ++ [(.plain, .step (.call 0))]) .plain
    ⟨"g", "t"⟩ 0 268435456 _ hs (by decide) leavesEntry_ownerAnswered
  revert hkept
  decide

end World

end GroupOffsets
