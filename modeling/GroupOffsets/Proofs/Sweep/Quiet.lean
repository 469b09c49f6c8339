import GroupOffsets.Proofs.Minima
import GroupOffsets.Proofs.Persist.Progress

/-!
# Sweep passes in quiet

A pass over a table that nobody else touches, with one minimum for each partition once and for all,
removes what `OffsetTable.Behind` says and nothing else, in whichever order it goes over the
entries.  `Sweep.outlook` is what it will have removed; no answer changes it, and the comparison
before an entry is removed never fails.
-/

namespace GroupOffsets

open World (Choice Event Attends)

namespace OffsetTable

/-- Every offset of an entry, and there are some, points at records that retention has deleted. -/
def Behind (t : OffsetTable) (min : TopicPartition → Option Offset) (k : GroupTopic) : Prop :=
  ∃ offsets, t.partitions k = some offsets ∧ offsets ≠ ∅ ∧
    ∀ p o, offsets[p]? = some o → ∃ m, min ⟨k.topic, p⟩ = some m ∧ o ≤ m

/-- A table without some of its entries. -/
structure Cleared (t : OffsetTable) (removed : List GroupTopic) (t' : OffsetTable) : Prop where
  partitions : ∀ k, t'.partitions k = if k ∈ removed then none else t.partitions k
  regressions : t'.regressions = t.regressions

variable {t t' : OffsetTable} {removed : List GroupTopic} {k : GroupTopic}
  {min : TopicPartition → Option Offset}

theorem cleared_nil : t.Cleared [] t := ⟨fun _ ↦ by simp, rfl⟩

theorem Cleared.erase (h : t.Cleared removed t') (k : GroupTopic) :
    t.Cleared (removed ++ [k]) (t'.erase k) where
  partitions k' := by
    rw [partitions_erase, h.partitions]
    by_cases hk : k' = k <;> simp [hk]
  regressions := h.regressions

/-- What is behind in the entries that are left was so before. -/
theorem Cleared.behind (h : t.Cleared removed t') (hk : t'.Behind min k) :
    k ∉ removed ∧ t.Behind min k := by
  obtain ⟨offsets, hoffsets, hbehind⟩ := hk
  rw [h.partitions] at hoffsets
  split at hoffsets
  · cases hoffsets
  · exact ⟨‹_›, offsets, hoffsets, hbehind⟩

theorem Cleared.eq_of_nil (h : t.Cleared [] t') : t' = t := by
  obtain ⟨entries, regressions⟩ := t
  obtain ⟨entries', regressions'⟩ := t'
  cases h.regressions
  congr 1
  refine Std.ExtTreeMap.ext_getElem? fun k ↦ (h.partitions k).trans ?_
  simp [OffsetTable.partitions]

end OffsetTable

/-! ## The outlook of a pass -/

namespace Sweep

section Outlook

variable (min : TopicPartition → Option Offset) (t : OffsetTable) (subscriptions : Subscriptions)

/-- Whether an offset points at deleted records, as far as is known. -/
def isBehind (topic : String) (e : Int32 × Offset) : Bool := (min ⟨topic, e.1⟩).any (e.2 ≤ ·)

/-- Whether a pass removes an entry. -/
def isDoomed (k : GroupTopic) : Bool :=
  !subscriptions.contains k && (t.partitions k).any fun offsets =>
    !offsets.isEmpty && offsets.toList.all (isBehind min k.topic)

/-- What a pass will have removed. -/
def outlook : Progress Sweep (List GroupTopic) → List GroupTopic
  | .asks s =>
    s.removed ++ ((bif (s.asked :: s.rest).all (isBehind min s.key.topic) then [s.key] else []) ++
      s.keys.filter (isDoomed min t subscriptions))
  | .done removed => removed

end Outlook

/-- What a pass has removed so far. -/
def removedOf : Progress Sweep (List GroupTopic) → List GroupTopic
  | .asks s => s.removed
  | .done removed => removed

variable {min : TopicPartition → Option Offset} {t t₀ t' : OffsetTable}
  {subscriptions : Subscriptions} {order : Itinerary} {removed keys : List GroupTopic} {s : Sweep}
  {a : Attempt Offset} {k : GroupTopic} {progress : Progress Sweep (List GroupTopic)}

theorem isBehind_iff {topic : String} {e : Int32 × Offset} :
    isBehind min topic e = true ↔ ∃ m, min ⟨topic, e.1⟩ = some m ∧ e.2 ≤ m := by
  simp only [isBehind, Option.any_eq_true, decide_eq_true_eq]

theorem isDoomed_iff : isDoomed min t subscriptions k = true ↔
    k ∉ subscriptions ∧ t.Behind min k := by
  have hempty : ∀ offsets : PartitionOffsets, offsets.isEmpty = false ↔ offsets ≠ ∅ := by
    intro offsets
    rw [← Bool.not_eq_true, Std.ExtTreeMap.isEmpty_iff]
  simp only [isDoomed, Bool.and_eq_true, Bool.not_eq_true', Option.any_eq_true, hempty,
    List.all_eq_true, isBehind_iff, Prod.forall, Std.ExtTreeMap.mem_toList_iff_getElem?_eq_some,
    OffsetTable.Behind, ← Std.ExtTreeSet.contains_iff_mem, Bool.not_eq_true]

/-- Of the entries nothing is left out. -/
theorem outlook_advance (removed keys : List GroupTopic) :
    outlook min t subscriptions (advance order t subscriptions removed keys) =
      removed ++ keys.filter (isDoomed min t subscriptions) := by
  induction keys with
  | nil => simp [advance, outlook]
  | cons k keys ih =>
      have skip : isDoomed min t subscriptions k = false →
          outlook min t subscriptions (advance order t subscriptions removed keys) =
            removed ++ (k :: keys).filter (isDoomed min t subscriptions) := by
        intro hkept
        rw [ih, List.filter_cons_of_neg (by simp [hkept])]
      rw [advance]
      split
      · rename_i hsub
        exact skip (by simp [isDoomed, hsub])
      · rename_i hsub
        split
        · rename_i hnone
          exact skip (by simp [isDoomed, hnone])
        · rename_i copy hcopy
          have hperm := arrange_perm (order.partitions k) copy.toList
          split
          · rename_i hnil
            rw [hnil] at hperm
            have hnone : copy.isEmpty = true := by
              rw [← Std.ExtTreeMap.isEmpty_toList, ← hperm.nil_eq]
              rfl
            exact skip (by simp only [isDoomed, hcopy, Option.any_some, hnone, Bool.not_true,
              Bool.false_and, Bool.and_false])
          · rename_i asked rest harr
            rw [harr] at hperm
            have hdoomed : isDoomed min t subscriptions k =
                (asked :: rest).all (isBehind min k.topic) := by
              have hsome : copy.isEmpty = false := by
                rw [← Std.ExtTreeMap.isEmpty_toList, ← hperm.isEmpty_eq]
                rfl
              simp only [isDoomed, hcopy, hsub, Option.any_some, hsome, ← hperm.all_eq,
                Bool.not_false, Bool.true_and]
            rw [outlook, List.filter_cons, hdoomed]
            cases (asked :: rest).all (isBehind min k.topic) <;> rfl

/-- In quiet, an entry that a pass looks at is what it has copied. -/
structure Faithful (t : OffsetTable) (s : Sweep) : Prop where
  copied : t.partitions s.key = some s.copy
  nodup : (s.key :: s.keys).Nodup

theorem faithful_advance (hkeys : keys.Nodup) :
    ∀ s, advance order t subscriptions removed keys = .asks s → Faithful t s := by
  intro s hs
  obtain h | ⟨s', h, hlooks⟩ := advance_cases order t subscriptions removed keys
  · cases h.symm.trans hs
  · cases h.symm.trans hs
    exact ⟨hlooks.copied, hkeys.sublist hlooks.suffix.sublist⟩

theorem removedOf_advance : removedOf (advance order t subscriptions removed keys) = removed := by
  obtain h | ⟨s, h, hlooks⟩ := advance_cases order t subscriptions removed keys
  · rw [h]
    rfl
  · rw [h]
    exact hlooks.removed_eq

/-- Dropping an entry does not decide about others. -/
theorem filter_isDoomed_erase (h : k ∉ keys) :
    keys.filter (isDoomed min (t.erase k) subscriptions) =
      keys.filter (isDoomed min t subscriptions) := by
  refine List.filter_congr fun k' hk' ↦ ?_
  have hne : k' ≠ k := fun heq ↦ h (heq ▸ hk')
  rw [isDoomed, OffsetTable.partitions_erase_of_ne hne, isDoomed]

/-- How far a quiet pass has come: what it has removed is gone, and what it will have removed are
the entries that were behind when it began. -/
structure Fares (min : TopicPartition → Option Offset) (t₀ : OffsetTable)
    (subscriptions : Subscriptions) (t : OffsetTable)
    (progress : Progress Sweep (List GroupTopic)) : Prop where
  outlook : (outlook min t subscriptions progress).Perm
    (t₀.keys.filter (isDoomed min t₀ subscriptions))
  cleared : t₀.Cleared (removedOf progress) t
  faithful : ∀ s, progress = .asks s → Faithful t s

theorem fares_start (order : Itinerary) (t : OffsetTable) (subscriptions : Subscriptions) :
    Fares min t subscriptions t (start order t subscriptions) where
  outlook := by
    rw [start, outlook_advance, List.nil_append]
    exact (arrange_perm order.entries t.keys).filter _
  cleared := by
    rw [start, removedOf_advance]
    exact OffsetTable.cleared_nil
  faithful := faithful_advance (nodup_arrange order.entries OffsetTable.nodup_keys)

/-- No answer changes what a pass will have removed. -/
theorem Fares.step (h : Fares min t₀ subscriptions t (.asks s)) (ha : a.toOption = min s.target)
    (hstep : Step order t subscriptions s a t' progress) :
    Fares min t₀ subscriptions t' progress := by
  have hfaithful := h.faithful s rfl
  have hkeys := (List.nodup_cons.mp hfaithful.nodup).2
  have houtlook := h.outlook
  have hbehind : ∀ {m}, a = .ok m → s.asked.2 ≤ m → isBehind min s.key.topic s.asked = true :=
    fun hok hle ↦ isBehind_iff.mpr ⟨_, ha.symm.trans (hok ▸ rfl), hle⟩
  cases hstep with
  | @next m asked rest behind more =>
      refine ⟨?_, h.cleared, fun s' hs' ↦ ?_⟩
      · simpa only [Sweep.outlook, more, List.all_cons, hbehind rfl behind, Bool.true_and]
          using houtlook
      · cases hs'
        exact ⟨hfaithful.copied, hfaithful.nodup⟩
  | @removes m behind last same =>
      refine ⟨?_, ?_, faithful_advance hkeys⟩
      · rw [outlook_advance, filter_isDoomed_erase (List.nodup_cons.mp hfaithful.nodup).1]
        simpa [Sweep.outlook, last, hbehind rfl behind] using houtlook
      · rw [removedOf_advance]
        exact h.cleared.erase s.key
  | spares why =>
      refine ⟨?_, ?_, faithful_advance hkeys⟩
      · have hahead : isBehind min s.key.topic s.asked = false := by
          refine Bool.eq_false_iff.mpr fun hbehind ↦ ?_
          obtain ⟨m, hm, hle⟩ := isBehind_iff.mp hbehind
          cases a with
          | error e => cases ha.trans hm
          | ok m' =>
              cases ha.trans hm
              exact (why m rfl hle).2 hfaithful.copied
        rw [outlook_advance]
        simpa [Sweep.outlook, hahead] using houtlook
      · rw [removedOf_advance]
        exact h.cleared

/-- Where a quiet pass stands. -/
inductive Course (min : TopicPartition → Option Offset) (t₀ : OffsetTable)
    (subscriptions : Subscriptions) (t : OffsetTable) : Option Call → Prop
  | begun (same : t = t₀) : Course min t₀ subscriptions t (some (.begun .sweep))
  | passing {c : Call} {s : Sweep} (purpose : c.purpose? = some (.sweep s))
      (fares : Fares min t₀ subscriptions t (.asks s)) : Course min t₀ subscriptions t (some c)
  | answered {removed : List GroupTopic} (fares : Fares min t₀ subscriptions t (.done removed)) :
      Course min t₀ subscriptions t (some (.answered (.keys removed)))

theorem Fares.course (h : Fares min t₀ subscriptions t progress) :
    Course min t₀ subscriptions t (some (Bridge.continueSweep progress)) := by
  cases progress with
  | asks s => exact .passing rfl h
  | done removed => exact .answered h

theorem Course.fares_of_reply {c : Call} {reply : Reply Handle}
    (h : Course min t₀ subscriptions t (some c)) (hreply : c.reply? = some reply) :
    ∃ removed, reply = .keys removed ∧ Fares min t₀ subscriptions t (.done removed) := by
  cases h with
  | begun => cases hreply
  | passing purpose _ =>
      cases c with
      | answered _ => cases purpose
      | _ => cases hreply
  | answered fares => exact ⟨_, (Option.some.inj hreply).symm, fares⟩

/-- A pass that is done has removed the entries that were behind when it began. -/
theorem Fares.removed_iff (h : Fares min t₀ subscriptions t (.done removed)) :
    removed.Nodup ∧ ∀ k, k ∈ removed ↔ k ∉ subscriptions ∧ t₀.Behind min k := by
  have hperm : removed.Perm (t₀.keys.filter (isDoomed min t₀ subscriptions)) := h.outlook
  refine ⟨hperm.nodup_iff.mpr (OffsetTable.nodup_keys.filter _), fun k ↦ ?_⟩
  rw [hperm.mem_iff, List.mem_filter, isDoomed_iff, OffsetTable.mem_keys]
  refine ⟨And.right, fun hdoomed ↦ ⟨?_, hdoomed⟩⟩
  obtain ⟨-, offsets, hoffsets, -⟩ := hdoomed
  rw [hoffsets]
  rfl

/-- A pass that finds no entry behind leaves the table as it is. -/
theorem Course.table_eq {o : Option Call} (h : Course min t₀ subscriptions t o)
    (hnone : ∀ k, k ∉ subscriptions → ¬ t₀.Behind min k) : t = t₀ := by
  have hfares : ∀ {progress}, Fares min t₀ subscriptions t progress → t = t₀ := by
    intro progress hfares
    have hempty : t₀.keys.filter (isDoomed min t₀ subscriptions) = [] := by
      refine List.filter_eq_nil_iff.mpr fun k _ hdoomed ↦ ?_
      obtain ⟨hsub, hbehind⟩ := isDoomed_iff.mp hdoomed
      exact hnone k hsub hbehind
    have houtlook := hfares.outlook
    rw [hempty] at houtlook
    have hremoved : removedOf progress = [] := by
      cases progress with
      | asks s => exact (List.append_eq_nil_iff.mp houtlook.eq_nil).1
      | done removed => exact houtlook.eq_nil
    exact (hremoved ▸ hfares.cleared).eq_of_nil
  cases h with
  | begun same => exact same
  | passing _ fares => exact hfares fares
  | answered fares => exact hfares fares

end Sweep

namespace World

variable {w : World} {n : Nat} {es : List (Choice × Event)} {t₀ : OffsetTable}
  {min : TopicPartition → Option Offset}

theorem course_run (h : Sweep.Course min t₀ w.bridge.subscriptions w.bridge.table w.calls[n]?)
    (hmin : ∀ x ∈ w.minimum? n, x.2.toOption = min x.1) (ch : Choice) :
    (w.run ch (.call n)).bridge.subscriptions = w.bridge.subscriptions ∧
      Sweep.Course min t₀ w.bridge.subscriptions (w.run ch (.call n)).bridge.table
        (w.run ch (.call n)).calls[n]? := by
  generalize hc : w.calls[n]? = o at h
  cases h with
  | begun same =>
      obtain ⟨hbridge, hcalls⟩ := run_begun_sweep ch hc
      rw [hbridge, hcalls, ← same]
      exact ⟨rfl, (Sweep.fares_start ch.order w.bridge.table w.bridge.subscriptions).course⟩
  | passing purpose fares =>
      obtain ⟨hsubs, ⟨-, htable, hs⟩ | ⟨a, progress, hf, hstep, hcalls⟩⟩ :=
        run_sweep ch (sweep?_eq_some.mpr ⟨_, hc, purpose⟩)
      · obtain ⟨c', hc', purpose'⟩ := sweep?_eq_some.mp hs
        rw [htable, hc']
        exact ⟨hsubs, .passing purpose' fares⟩
      · rw [hcalls]
        exact ⟨hsubs, (fares.step (hmin _ (minimum?_of_finding? hf)) hstep).course⟩
  | answered fares =>
      rw [calls_run_call hc, bridge_run_call hc]
      exact ⟨rfl, .answered fares⟩

theorem course_steps (hn : n < w.nextCall)
    (h : Sweep.Course min t₀ w.bridge.subscriptions w.bridge.table w.calls[n]?)
    (hes : w.Quiet n min es) : (w.steps es).bridge.subscriptions = w.bridge.subscriptions ∧
      Sweep.Course min t₀ w.bridge.subscriptions (w.steps es).bridge.table
        (w.steps es).calls[n]? := by
  induction es generalizing w with
  | nil => exact ⟨rfl, h⟩
  | cons e es ih =>
      obtain ⟨ch, e⟩ := e
      obtain ⟨hown, hother, hrest⟩ := hes
      have hn' : n < (w.step ch e).nextCall := Nat.lt_of_lt_of_le hn nextCall_le_step
      by_cases he : e = .step (.call n)
      · subst he
        obtain ⟨hsubs, hcourse⟩ := course_run h (hown rfl) ch
        exact hsubs ▸ ih hn' (hsubs ▸ hcourse) hrest
      · obtain ⟨hkept, htable, hsubs⟩ := hother he
        have hcalls : (w.step ch e).calls[n]? = w.calls[n]? := calls_step_of_ne hn he hkept
        rw [← hcalls, ← htable, ← hsubs] at h
        exact hsubs ▸ ih hn' h hrest

/-! ## A pass gets done -/

end World

namespace Call

open Persist (weight)

variable {order : Itinerary} {t : OffsetTable} {subscriptions : Subscriptions}
  {removed keys : List GroupTopic} {k : GroupTopic} {b : Bridge} {l : Nat}

/-- A sweep pass comes to no more partitions than there are offsets. -/
def Measure.sweep : Measure where
  request t
    | .sweep => some t.count
    | _ => none
  purpose t
    | .sweep s => some (s.rest.length + weight t s.keys)
    | _ => none

theorem weight_le_of_suffix {keys' : List GroupTopic} (h : keys' <:+ keys) :
    weight t keys' ≤ weight t keys := by
  obtain ⟨before, rfl⟩ := h
  induction before with
  | nil => exact Nat.le_refl _
  | cons k before ih => exact Nat.le_trans ih (Nat.le_add_left ..)

theorem weight_erase_le (t : OffsetTable) (k : GroupTopic) (keys : List GroupTopic) :
    weight (t.erase k) keys ≤ weight t keys := by
  induction keys with
  | nil => exact Nat.le_refl _
  | cons k' keys ih =>
      rw [weight, weight]
      by_cases hk : k' = k
      · subst hk
        rw [OffsetTable.partitions_erase_self]
        exact Nat.add_le_add (Nat.zero_le _) ih
      · rw [OffsetTable.partitions_erase_of_ne hk]
        exact Nat.add_le_add_left ih _

theorem Measure.settles_advance_sweep (hb : b.table = t) (hl : weight t keys ≤ l) :
    sweep.Settles l b
      (Bridge.continueSweep (Sweep.advance order t subscriptions removed keys)) := by
  obtain h | ⟨s, h, hlooks⟩ := Sweep.advance_cases order t subscriptions removed keys
  · rw [h]
    exact .inl ⟨_, rfl⟩
  · rw [h]
    refine .inr ⟨_, _, rfl, rfl, Nat.lt_of_lt_of_le ?_ hl⟩
    refine Nat.lt_of_lt_of_le ?_ (weight_le_of_suffix hlooks.suffix)
    have hsize : s.copy.size = s.rest.length + 1 := by
      rw [← Std.ExtTreeMap.length_toList, ← hlooks.perm.length_eq]
      rfl
    rw [weight, hlooks.copied, Option.map_some, Option.getD_some, hsize, hb]
    omega

/-- Whatever a pass is told, it comes to fewer partitions after that. -/
theorem Measure.settles_step_sweep {s : Sweep} {a : Attempt Offset} {t' : OffsetTable}
    {progress : Progress Sweep (List GroupTopic)} (hb : b.table = t')
    (hstep : Sweep.Step order t subscriptions s a t' progress) :
    sweep.Settles (s.rest.length + weight t s.keys) b (Bridge.continueSweep progress) := by
  cases hstep with
  | next behind more =>
      refine .inr ⟨_, _, rfl, rfl, ?_⟩
      rw [more, List.length_cons, hb]
      exact Nat.add_lt_add_right (Nat.lt_succ_self _) _
  | removes behind last same =>
      exact settles_advance_sweep hb (Nat.le_trans (weight_erase_le ..) (Nat.le_add_left ..))
  | spares why => exact settles_advance_sweep hb (Nat.le_add_left ..)

theorem Measure.falls_sweep : sweep.Falls where
  beginCall {b r l} order now hl := by
    cases r with
    | sweep =>
        cases hl
        exact settles_advance_sweep rfl (Nat.le_of_eq (Persist.weight_arrange_keys ..))
    | _ => cases hl
  deliver {b p l} order r hl := by
    cases p with
    | sweep s =>
        cases hl
        exact settles_step_sweep rfl (Sweep.step_answer s (b.minOffset r))
    | _ => cases hl

end Call

namespace World

variable {w : World} {n : Nat} {es : List (Choice × Event)} {min : TopicPartition → Option Offset}
  {reply : Reply Handle}

/-- A pass in quiet, from its beginning on. -/
theorem course_of_quiet (hn : n < w.nextCall) (hc : w.calls[n]? = some (.begun .sweep))
    (hes : w.Quiet n min es) : (w.steps es).bridge.subscriptions = w.bridge.subscriptions ∧
      Sweep.Course min w.bridge.table w.bridge.subscriptions (w.steps es).bridge.table
        (w.steps es).calls[n]? :=
  course_steps hn (hc ▸ .begun rfl) hes

/-- A pass in quiet, when it is done. -/
theorem sweep_of_quiet (hn : n < w.nextCall) (hc : w.calls[n]? = some (.begun .sweep))
    (hes : w.Quiet n min es) (hreply : (w.steps es).reply? n = some reply) :
    ∃ removed, reply = .keys removed ∧ removed.Nodup ∧
      (∀ k, k ∈ removed ↔ k ∉ w.bridge.subscriptions ∧ w.bridge.table.Behind min k) ∧
      w.bridge.table.Cleared removed (w.steps es).bridge.table := by
  have hcourse := (course_of_quiet hn hc hes).2
  obtain ⟨c, hcalls, hcr⟩ := Option.bind_eq_some_iff.mp hreply
  rw [hcalls] at hcourse
  obtain ⟨removed, rfl, hfares⟩ := hcourse.fares_of_reply hcr
  exact ⟨removed, rfl, hfares.removed_iff.1, hfares.removed_iff.2, hfares.cleared⟩

/-- A pass in quiet removes nothing where no entry is behind. -/
theorem sweep_of_none_behind (hn : n < w.nextCall) (hc : w.calls[n]? = some (.begun .sweep))
    (hes : w.Quiet n min es)
    (hnone : ∀ k, k ∉ w.bridge.subscriptions → ¬ w.bridge.table.Behind min k) :
    (w.steps es).bridge.table = w.bridge.table ∧
      ∀ reply, (w.steps es).reply? n = some reply → reply = .keys [] := by
  refine ⟨(course_of_quiet hn hc hes).2.table_eq hnone, fun reply hreply ↦ ?_⟩
  obtain ⟨removed, rfl, -, hremoved, -⟩ := sweep_of_quiet hn hc hes hreply
  have hempty : removed = [] := by
    refine List.eq_nil_iff_forall_not_mem.mpr fun k hk ↦ ?_
    obtain ⟨hsub, hbehind⟩ := (hremoved k).mp hk
    exact hnone k hsub hbehind
  rw [hempty]

/-- **A pass in quiet.**  Whichever table it finds, and in whichever order it goes over entries and
partitions, a sweep pass removes the entries without a subscription all of whose offsets, and there
are some, are behind the minimum that their partition is told to have.  Everything else stays as it
is.  A second pass with the same minima has nothing to remove. -/
theorem sweep_is_exact (w : World) (n : Nat) (min : TopicPartition → Option Offset)
    (es : List (Choice × Event)) (hn : n < w.nextCall)
    (hc : w.calls[n]? = some (.begun .sweep)) (hes : w.Quiet n min es) :
    let t := w.bridge.table
    let v := w.steps es
    (∀ reply, v.reply? n = some reply → ∃ removed, reply = .keys removed ∧ removed.Nodup ∧
      (∀ k, k ∈ removed ↔ k ∉ w.bridge.subscriptions ∧ t.Behind min k) ∧
      (∀ k, v.bridge.table.partitions k = if k ∈ removed then none else t.partitions k) ∧
      v.bridge.table.regressions = t.regressions ∧
      ∀ es', (v.call .sweep).2.Quiet v.nextCall min es' →
        ((v.call .sweep).2.steps es').bridge.table = v.bridge.table ∧
        ∀ reply', ((v.call .sweep).2.steps es').reply? v.nextCall = some reply' →
          reply' = .keys []) ∧
    (Attends (.call n) w.bridge.settings.callerWait (2 * t.count + 1) es →
      ∃ reply, v.reply? n = some reply) := by
  intro t v
  refine ⟨fun reply hreply ↦ ?_, fun hattends ↦ ?_⟩
  · obtain ⟨removed, rfl, hnodup, hremoved, hcleared⟩ := sweep_of_quiet hn hc hes hreply
    have hsubs : v.bridge.subscriptions = w.bridge.subscriptions := (course_of_quiet hn hc hes).1
    -- what is behind after the pass was so before, and has not been removed
    have hnone : ∀ k, k ∉ v.bridge.subscriptions → ¬ v.bridge.table.Behind min k := by
      intro k hsub hbehind
      obtain ⟨hkept, hbehind⟩ := hcleared.behind hbehind
      exact hkept ((hremoved k).mpr ⟨hsubs ▸ hsub, hbehind⟩)
    exact ⟨removed, rfl, hnodup, hremoved, hcleared.partitions, hcleared.regressions,
      fun es' hes' ↦ sweep_of_none_behind (Nat.lt_succ_self _) (v.calls_call .sweep) hes' hnone⟩
  · have hnears : w.NearsReply .sweep n (2 * t.count + 1) :=
      ⟨hn, _, hc, .begun rfl (Nat.le_refl _)⟩
    exact hnears.exists_reply_of_bears Call.Measure.falls_sweep hes.bears hattends

/-- A partition that retains the records from offset 5 on, and another one that the store does not
have.  Of four groups with offsets there one is behind, one is ahead, one subscribes, and of one
nothing is known. -/
def crowded : World :=
  (new 0 (.new ⟨[], ⟨1, 1, 10, 1⟩, 10⟩ (.new "node" ∅) none)).steps
    [(.plain, .operate (.createPartition ⟨"t", 0⟩)),
      (.plain, .operate (.setRange ⟨"t", 0⟩ ⟨0, 5⟩ ⟨0, 9⟩)),
      (.plain, .operate (.register ⟨"t", 0⟩)), (.plain, .operate (.commit ⟨"g", "t"⟩ 0 5)),
      (.plain, .operate (.commit ⟨"h", "t"⟩ 0 6)), (.plain, .operate (.commit ⟨"s", "t"⟩ 0 2)),
      (.plain, .operate (.subscribe ⟨"s", "t"⟩)), (.plain, .operate (.commit ⟨"u", "t"⟩ 1 2)),
      (.plain, .call .sweep)]

theorem sweep_of_crowded_topic :
    (crowded.steps (rounds (List.replicate 9 (.call 0)))).reply? 0 = some (.keys [⟨"g", "t"⟩]) ∧
    ∀ k, (crowded.steps (rounds (List.replicate 9 (.call 0)))).bridge.table.partitions k =
      if k = ⟨"g", "t"⟩ then none else crowded.bridge.table.partitions k := by
  have hcomes : (crowded.steps (rounds (List.replicate 9 (.call 0)))).reply? 0 =
      some (.keys [⟨"g", "t"⟩]) := rfl
  have hquiet : crowded.Quiet 0 (fun tp ↦ if tp = ⟨"t", 0⟩ then some 5 else none)
      (rounds (List.replicate 9 (.call 0))) := quiet_rounds (by decide)
  obtain ⟨hexact, hdone⟩ := sweep_is_exact crowded 0 _ _ (by decide) rfl hquiet
  obtain ⟨reply, hreply⟩ := hdone (attends_rounds (.call 0) (by decide) 9)
  obtain ⟨removed, rfl, -, -, hpartitions, -⟩ := hexact reply hreply
  cases hreply.symm.trans hcomes
  exact ⟨hreply, fun k ↦ by simpa using hpartitions k⟩

end World

end GroupOffsets
