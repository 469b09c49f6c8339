import Mathlib.Data.List.Induction
import GroupOffsets.Proofs.Call
import GroupOffsets.Proofs.Sweep.Step

/-!
# A sweep pass in a run

A run of a world steps call `n`, which is a sweep pass, and does anything else in between.  The
pass leaves two traces: the minima that it was told of (`World.findings`), and the keys whose
entries were there before one of its steps and are gone after it (`World.removals`).

`Sweep.Sound` is what connects the two with the state of the pass; it is kept by every step of the
pass, and nothing else can touch it.
-/

namespace GroupOffsets

open World (Choice Event Task)

/-- The sweep pass that a call is in the midst of. -/
def Call.sweep? (c : Call) : Option Sweep :=
  match c.purpose? with
  | some (.sweep s) => some s
  | _ => none

theorem Call.sweep?_eq_some {c : Call} {s : Sweep} :
    c.sweep? = some s ↔ c.purpose? = some (.sweep s) := by
  rw [sweep?]
  split
  · rename_i h
    simp [h]
  · rename_i h
    exact ⟨fun h' ↦ absurd h' (by simp), fun h' ↦ (h s h').elim⟩

/-- The retained minimum of a partition as a pass was told it, or the failure in its place. -/
structure Finding where
  key : GroupTopic
  partition : Int32
  minimum : Attempt Offset

/-! ## What a pass knows -/

namespace Sweep

variable {found : List Finding} {removed keys : List GroupTopic} {s : Sweep}
variable {order : Itinerary} {t t' : OffsetTable} {subscriptions : Subscriptions}
variable {min : Attempt Offset} {progress : Progress Sweep (List GroupTopic)}

/-- No key of the list has been removed before, and none had a partition without a minimum. -/
structure Clean (found : List Finding) (keys : List GroupTopic) : Prop where
  nodup : keys.Nodup
  failed : ∀ {k p e}, ⟨k, p, .error e⟩ ∈ found → k ∉ keys

theorem Clean.sublist {keys' : List GroupTopic} (h : Clean found keys) (hsub : keys'.Sublist keys) :
    Clean found keys' :=
  ⟨h.nodup.sublist hsub, fun he hk ↦ h.failed he (hsub.mem hk)⟩

/-- What a pass knows of the entry that it looks at: every partition that it does not ask for any
more was told to be behind the retained data. -/
structure Sound (found : List Finding) (removed : List GroupTopic) (s : Sweep) : Prop where
  removed_eq : s.removed = removed
  clean : Clean found (removed ++ s.key :: s.keys)
  settled : ∀ {p o}, s.copy[p]? = some o →
    (p, o) ∈ s.asked :: s.rest ∨ ∃ m, ⟨s.key, p, .ok m⟩ ∈ found ∧ o ≤ m
  nonempty : s.copy ≠ ∅

/-- A pass that is over has to account for what it removed, and one that is not stays sound. -/
def Accounts (found : List Finding) (removed : List GroupTopic) :
    Progress Sweep (List GroupTopic) → Prop
  | .asks s => Sound found removed s
  | .done ks => ks = removed ∧ Clean found removed

theorem Looks.sound (h : Looks t subscriptions removed keys s)
    (hc : Clean found (removed ++ keys)) : Sound found removed s where
  removed_eq := h.removed_eq
  clean := hc.sublist ((List.Sublist.refl _).append h.suffix.sublist)
  settled := fun hp ↦
    .inl (h.perm.mem_iff.mpr (Std.ExtTreeMap.mem_toList_iff_getElem?_eq_some.mpr hp))
  nonempty := by
    rintro hempty
    have hnil : s.copy.toList = [] := by simp [hempty]
    exact List.cons_ne_nil _ _ (hnil ▸ h.perm).eq_nil

theorem accounts_advance (hc : Clean found (removed ++ keys)) :
    Accounts found removed (advance order t subscriptions removed keys) := by
  obtain h | ⟨s, h, hs⟩ := advance_cases order t subscriptions removed keys
  · rw [h]
    exact ⟨rfl, hc.sublist (List.sublist_append_left _ _)⟩
  · rw [h]
    exact hs.sound hc

/-- Told of a minimum, a pass stays sound.  If it removes the entry, then every partition of it
was told to be behind. -/
theorem Sound.step (h : Sound found removed s)
    (hstep : Step order t subscriptions s min t' progress) :
    t' = t ∧ Accounts (found ++ [⟨s.key, s.asked.1, min⟩]) removed progress ∨
      t.partitions s.key = some s.copy ∧ t' = t.erase s.key ∧
        (∀ {p o}, s.copy[p]? = some o →
          ∃ m, ⟨s.key, p, .ok m⟩ ∈ found ++ [⟨s.key, s.asked.1, min⟩] ∧ o ≤ m) ∧
        Accounts (found ++ [⟨s.key, s.asked.1, min⟩]) (removed ++ [s.key]) progress := by
  have hclean : ∀ {m}, min = .ok m →
      Clean (found ++ [⟨s.key, s.asked.1, min⟩]) (removed ++ s.key :: s.keys) := by
    rintro m rfl
    refine ⟨h.clean.nodup, fun {k p e} he ↦ ?_⟩
    have hold : ⟨k, p, .error e⟩ ∈ found := by simpa using he
    exact h.clean.failed hold
  have hsettled : ∀ {m p o}, min = .ok m → s.asked.2 ≤ m → s.copy[p]? = some o →
      (p, o) ∈ s.rest ∨ ∃ m, ⟨s.key, p, .ok m⟩ ∈ found ++ [⟨s.key, s.asked.1, min⟩] ∧ o ≤ m := by
    rintro m p o rfl hle hp
    rcases h.settled hp with hmem | ⟨m', hm', hle'⟩
    · rcases List.mem_cons.mp hmem with heq | hrest
      · refine .inr ⟨m, ?_, ?_⟩
        · simp [← heq]
        · simpa [← heq] using hle
      · exact .inl hrest
    · exact .inr ⟨m', List.mem_append_left _ hm', hle'⟩
  cases hstep with
  | next behind more =>
      refine .inl ⟨rfl, h.removed_eq, hclean rfl, fun hp ↦ ?_, h.nonempty⟩
      exact more ▸ hsettled rfl behind hp
  | removes behind last same =>
      refine .inr ⟨same, rfl, fun hp ↦ ?_, ?_⟩
      · exact (hsettled rfl behind hp).resolve_left (by simp [last])
      · rw [h.removed_eq]
        exact accounts_advance (by simpa using hclean rfl)
  | spares why =>
      refine .inl ⟨rfl, ?_⟩
      rw [h.removed_eq]
      refine accounts_advance ⟨?_, fun he hk ↦ ?_⟩
      · exact h.clean.nodup.sublist ((List.Sublist.refl _).append (List.sublist_cons_self _ _))
      · rcases List.mem_append.mp he with he | he
        · exact h.clean.failed he (by simp at hk ⊢; tauto)
        · obtain ⟨rfl, -, -⟩ := by simpa using he
          have hnodup := List.nodup_append.mp h.clean.nodup
          rcases List.mem_append.mp hk with hk | hk
          · exact hnodup.2.2 _ hk _ (List.mem_cons_self ..) rfl
          · exact (List.nodup_cons.mp hnodup.2.1).1 hk

end Sweep

/-! ## One step of a pass -/

namespace World

section Step

variable (w : World) (n : Nat)

/-- The sweep pass that call `n` is in the midst of. -/
def sweep? : Option Sweep := w.calls[n]?.bind Call.sweep?

/-- What the next step of call `n` finds out about a retained minimum. -/
def finding? : Option Finding :=
  match w.calls[n]?.bind (w.bridge.handed w.now) with
  | some (.sweep s, r) => some ⟨s.key, s.asked.1, w.bridge.minOffset r⟩
  | _ => none

/-- The keys whose entries the next step of call `n` drops. -/
def drops (ch : Choice) : List GroupTopic :=
  w.bridge.table.keys.filter fun k ↦ ((w.run ch (.call n)).bridge.table.partitions k).isNone

end Step

variable {w : World} {n : Nat} {ch : Choice} {s : Sweep} {c : Call}

theorem drops_of_table_eq (h : (w.run ch (.call n)).bridge.table = w.bridge.table) :
    w.drops n ch = [] := by
  apply List.filter_eq_nil_iff.mpr
  intro k hk
  rw [h, Option.isNone_iff_eq_none]
  exact Option.isSome_iff_ne_none.mp (OffsetTable.mem_keys.mp hk)

theorem drops_of_table_erase {k : GroupTopic}
    (h : (w.run ch (.call n)).bridge.table = w.bridge.table.erase k)
    (hk : (w.bridge.table.partitions k).isSome) : w.drops n ch = [k] := by
  have hnodup : w.bridge.table.keys.Nodup := OffsetTable.nodup_keys
  have heq : ∀ k' ∈ w.bridge.table.keys,
      ((w.run ch (.call n)).bridge.table.partitions k').isNone = (k' == k) := by
    intro k' hk'
    rw [h]
    by_cases hkk : k' = k
    · simp [hkk]
    · rw [OffsetTable.partitions_erase_of_ne hkk, beq_eq_false_iff_ne.mpr hkk]
      simpa using OffsetTable.mem_keys.mp hk'
  rw [drops, List.filter_congr heq, List.filter_beq,
    List.count_eq_one_of_mem hnodup (OffsetTable.mem_keys.mpr hk), List.replicate_one]

theorem sweep?_eq_some : w.sweep? n = some s ↔
    ∃ c, w.calls[n]? = some c ∧ c.purpose? = some (.sweep s) := by
  simp only [sweep?, Option.bind_eq_some_iff, Call.sweep?_eq_some]

theorem finding?_of_not_sweep (h : w.sweep? n = none) : w.finding? n = none := by
  rw [finding?]
  split
  · rename_i s r hs
    obtain ⟨c, hc, hr⟩ := Option.bind_eq_some_iff.mp hs
    rw [sweep?_eq_some.mpr ⟨c, hc, Bridge.purpose?_of_handed hr⟩] at h
    cases h
  · rfl

/-- The first step of a pass looks for an entry. -/
theorem run_begun_sweep (ch : Choice) (h : w.calls[n]? = some (.begun .sweep)) :
    (w.run ch (.call n)).bridge = w.bridge ∧
      (w.run ch (.call n)).calls[n]? = some (Bridge.continueSweep
        (Sweep.start ch.order w.bridge.table w.bridge.subscriptions)) := by
  simp [run_call_of_some h, Bridge.stepCall, Bridge.beginCall]

/-- A later step of a pass waits, or goes on with a minimum. -/
theorem run_sweep (ch : Choice) (h : w.sweep? n = some s) :
    (w.run ch (.call n)).bridge.subscriptions = w.bridge.subscriptions ∧
      (w.finding? n = none ∧ (w.run ch (.call n)).bridge.table = w.bridge.table ∧
          (w.run ch (.call n)).sweep? n = some s ∨
        ∃ min progress, w.finding? n = some ⟨s.key, s.asked.1, min⟩ ∧
          Sweep.Step ch.order w.bridge.table w.bridge.subscriptions s min
            (w.run ch (.call n)).bridge.table progress ∧
          (w.run ch (.call n)).calls[n]? = some (Bridge.continueSweep progress)) := by
  obtain ⟨c, hc, hp⟩ := sweep?_eq_some.mp h
  rcases run_call_of_purpose ch hc hp with
    ⟨hh, htable, hsubs, c', hc', hp'⟩ | ⟨r, metrics, hh, hbridge, hc'⟩
  · refine ⟨hsubs, .inl ⟨?_, htable, sweep?_eq_some.mpr ⟨c', hc', hp'⟩⟩⟩
    simp only [finding?, hc, Option.bind_some, hh]
  · have hf : w.finding? n = some ⟨s.key, s.asked.1, w.bridge.minOffset r⟩ := by
      simp only [finding?, hc, Option.bind_some, hh]
    rw [hbridge]
    exact ⟨rfl, .inr ⟨_, _, hf, Sweep.step_answer s (w.bridge.minOffset r), hc'⟩⟩

end World

/-! ## The traces of a pass -/

namespace World

/-- What the steps of call `n` show in a run, one after the other. -/
def trace {α : Type} (n : Nat) (f : World → Choice → List α) :
    World → List (Choice × Event) → List α
  | _, [] => []
  | w, (ch, .step (.call m)) :: es =>
    (if m = n then f w ch else []) ++ trace n f (w.step ch (.step (.call m))) es
  | w, (ch, e) :: es => trace n f (w.step ch e) es

variable (w : World) (n : Nat) (es : List (Choice × Event))

/-- The minima that a pass was told of. -/
def findings : List Finding := w.trace n (fun w _ ↦ (w.finding? n).toList) es

/-- The keys that a pass removed. -/
def removals : List GroupTopic := w.trace n (fun w ch ↦ w.drops n ch) es

variable {w n es} {ch : Choice} {e : Event} {α : Type} {f : World → Choice → List α}

theorem trace_append (es' : List (Choice × Event)) :
    w.trace n f (es ++ es') = w.trace n f es ++ (w.steps es).trace n f es' := by
  fun_induction trace n f w es with
  | case1 w => rfl
  | case2 w ch m es ih => simp [trace, ih]
  | case3 w ch e es hne ih =>
      rw [List.cons_append, trace, ih, steps_cons]
      exact hne

theorem trace_concat_own :
    w.trace n f (es ++ [(ch, .step (.call n))]) = w.trace n f es ++ f (w.steps es) ch := by
  simp [trace_append, trace]

theorem trace_concat_of_ne (h : e ≠ .step (.call n)) :
    w.trace n f (es ++ [(ch, e)]) = w.trace n f es := by
  have hnil : (w.steps es).trace n f [(ch, e)] = [] := by
    cases e with
    | step t =>
        cases t with
        | call m =>
            have hm : m ≠ n := fun hm ↦ h (hm ▸ rfl)
            simp [trace, hm]
        | _ => rfl
    | _ => rfl
  rw [trace_append, hnil, List.append_nil]

end World

/-! ## What holds along a run -/

namespace Sweep

variable {found : List Finding} {removed : List GroupTopic} {o : Option Call}

/-- Where a pass stands in a run that has left these traces. -/
inductive Stage : List Finding → List GroupTopic → Option Call → Prop
  | begun : Stage [] [] (some (.begun .sweep))
  | passing {found : List Finding} {removed : List GroupTopic} {c : Call} {s : Sweep}
      (purpose : c.purpose? = some (.sweep s)) (sound : Sound found removed s) :
      Stage found removed (some c)
  | answered {found : List Finding} {removed : List GroupTopic} (clean : Clean found removed) :
      Stage found removed (some (.answered (.keys removed)))
  | cancelled {found : List Finding} {removed : List GroupTopic} (clean : Clean found removed) :
    Stage found removed none

theorem Stage.clean (h : Stage found removed o) : Clean found removed := by
  cases h with
  | begun => exact ⟨.nil, fun he ↦ absurd he (by simp)⟩
  | passing _ sound => exact sound.clean.sublist (List.sublist_append_left _ _)
  | answered clean => exact clean
  | cancelled clean => exact clean

theorem Stage.sound {c : Call} {s : Sweep} (h : Stage found removed o) (hc : o = some c)
    (hp : c.purpose? = some (.sweep s)) : Sound found removed s := by
  subst hc
  cases h with
  | begun => cases hp
  | passing purpose sound =>
      cases purpose.symm.trans hp
      exact sound
  | answered _ => cases hp

/-- A pass answers with what it removed. -/
theorem Stage.reply_eq {c : Call} {reply : Reply Handle} (h : Stage found removed (some c))
    (hreply : c.reply? = some reply) : reply = .keys removed := by
  cases h with
  | begun => cases hreply
  | passing purpose _ =>
      cases c with
      | answered _ => cases purpose
      | _ => cases hreply
  | answered _ => exact (Option.some.inj hreply).symm

theorem Accounts.stage {progress : Progress Sweep (List GroupTopic)}
    (h : Accounts found removed progress) :
    Stage found removed (some (Bridge.continueSweep progress)) := by
  cases progress with
  | asks s => exact .passing rfl h
  | done ks =>
      obtain ⟨rfl, hclean⟩ := h
      exact .answered hclean

end Sweep

namespace World

variable {w : World} {n : Nat} {ch : Choice} {e : Event} {es : List (Choice × Event)}
variable {found : List Finding} {removed : List GroupTopic}

/-- What one step of a pass may do to the table: nothing, or it drops one entry.  Every partition
of that entry was told to be behind the retained data. -/
def DropsAtMost (w : World) (n : Nat) (ch : Choice) (found : List Finding) : Prop :=
  (w.run ch (.call n)).bridge.table = w.bridge.table ∧ w.drops n ch = [] ∨
    ∃ k offsets, w.drops n ch = [k] ∧ w.bridge.table.partitions k = some offsets ∧ offsets ≠ ∅ ∧
      (w.run ch (.call n)).bridge.table = w.bridge.table.erase k ∧
      ∀ {p o}, offsets[p]? = some o → ∃ m, ⟨k, p, .ok m⟩ ∈ found ∧ o ≤ m

/-- While its pass looks at no entry, call `n` leaves the table alone. -/
theorem table_run_of_stage (ch : Choice) (h : Sweep.Stage found removed w.calls[n]?)
    (hs : w.sweep? n = none) :
    (w.run ch (.call n)).bridge.table = w.bridge.table := by
  generalize hc : w.calls[n]? = o at h
  cases h with
  | begun => rw [(run_begun_sweep ch hc).1]
  | passing purpose _ =>
      rw [sweep?_eq_some.mpr ⟨_, hc, purpose⟩] at hs
      cases hs
  | answered _ => simp [run_call_of_some hc, Bridge.stepCall]
  | cancelled _ => rw [run_call_of_none hc]

/-- A step of the pass itself. -/
theorem stage_run (h : Sweep.Stage found removed w.calls[n]?) :
    w.DropsAtMost n ch (found ++ (w.finding? n).toList) ∧
      Sweep.Stage (found ++ (w.finding? n).toList) (removed ++ w.drops n ch)
        (w.run ch (.call n)).calls[n]? := by
  have idle : w.sweep? n = none → Sweep.Stage found removed (w.run ch (.call n)).calls[n]? →
      w.DropsAtMost n ch (found ++ (w.finding? n).toList) ∧
        Sweep.Stage (found ++ (w.finding? n).toList) (removed ++ w.drops n ch)
          (w.run ch (.call n)).calls[n]? := by
    intro hs hstage
    have ht := table_run_of_stage ch h hs
    have hd : w.drops n ch = [] := drops_of_table_eq ht
    exact ⟨.inl ⟨ht, hd⟩, by simpa [hd, finding?_of_not_sweep hs] using hstage⟩
  generalize hc : w.calls[n]? = o at h
  cases h with
  | begun =>
      refine idle (by simp [sweep?, hc, Call.sweep?, Call.purpose?]) ?_
      rw [(run_begun_sweep ch hc).2]
      refine (Sweep.accounts_advance ⟨?_, fun he ↦ absurd he (by simp)⟩).stage
      exact nodup_arrange _ OffsetTable.nodup_keys
  | answered clean =>
      refine idle (by simp [sweep?, hc, Call.sweep?, Call.purpose?]) ?_
      have hself : (w.run ch (.call n)).calls[n]? = some (.answered (.keys removed)) := by
        simp [run_call_of_some hc, Bridge.stepCall]
      exact hself ▸ .answered clean
  | cancelled clean =>
      refine idle (by simp [sweep?, hc]) ?_
      rw [run_call_of_none hc, hc]
      exact .cancelled clean
  | @passing _ _ c s purpose sound =>
      have hs : w.sweep? n = some s := sweep?_eq_some.mpr ⟨c, hc, purpose⟩
      obtain ⟨-, ⟨hf, ht, hs'⟩ | ⟨min, progress, hf, hstep, hcalls⟩⟩ := run_sweep ch hs
      · obtain ⟨c', hc', purpose'⟩ := sweep?_eq_some.mp hs'
        have hd : w.drops n ch = [] := drops_of_table_eq ht
        refine ⟨.inl ⟨ht, hd⟩, ?_⟩
        rw [hc', hf, hd]
        simpa using Sweep.Stage.passing purpose' sound
      · rw [hf, hcalls]
        rcases sound.step hstep with ⟨ht, hacc⟩ | ⟨hk, ht, hbehind, hacc⟩
        · have hd : w.drops n ch = [] := drops_of_table_eq ht
          exact ⟨.inl ⟨ht, hd⟩, by simpa [hd] using hacc.stage⟩
        · have hd : w.drops n ch = [s.key] := drops_of_table_erase ht (by simp [hk])
          exact ⟨.inr ⟨s.key, s.copy, hd, hk, sound.nonempty, ht, hbehind⟩, hd ▸ hacc.stage⟩

/-- A sweep pass stays sound, whatever happens between its steps. -/
theorem stage_steps (w : World) (es : List (Choice × Event)) :
    Sweep.Stage ((w.call .sweep).2.findings w.nextCall es)
      ((w.call .sweep).2.removals w.nextCall es)
      ((w.call .sweep).2.steps es).calls[w.nextCall]? := by
  induction es using List.reverseRecOn with
  | nil =>
      have h : (w.call .sweep).2.calls[w.nextCall]? = some (.begun .sweep) := by simp [call]
      exact h ▸ .begun
  | append_singleton es e ih =>
      obtain ⟨ch, e⟩ := e
      have hn : w.nextCall < ((w.call .sweep).2.steps es).nextCall := lt_nextCall_steps_call
      rw [steps_append]
      by_cases hown : e = .step (.call w.nextCall)
      · subst hown
        rw [findings, removals, trace_concat_own, trace_concat_own]
        exact (stage_run ih).2
      · rw [findings, removals, trace_concat_of_ne hown, trace_concat_of_ne hown]
        by_cases hcancel : e = .cancel w.nextCall
        · rw [hcancel, steps_cons, steps_nil, calls_cancel]
          exact .cancelled ih.clean
        · rw [steps_cons, steps_nil, calls_step_of_ne hn hown hcancel]
          exact ih

end World

end GroupOffsets
