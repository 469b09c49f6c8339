import GroupOffsets.Proofs.Range

/-!
# Trimming

Retention drops records from the beginning of a partition, so the earliest position ought to go on
only.  A trim is kept from going beyond the end, but not from going back behind the beginning: then
records that were dropped count as retained again.  Nothing else takes the beginning back.
-/

namespace GroupOffsets

theorem Partition.first_trim_of_back {p : Partition} {x : Position} (h : p.first ≤ p.last)
    (back : x < p.first) : (p.trim x).first = x :=
  Position.min_eq_left (Std.le_trans (Std.le_of_lt back) h)

namespace World

variable {w : World} {u : Use} {us us' : List Use} {n : Nat}

/-- A use trims an object to a position before its beginning. -/
inductive TrimsBack (n : Nat) (w : World) : Use → Prop
  | mk {ch : Choice} {tp : TopicPartition} {x : Position} (on : w.bridge.store.object? tp = some n)
      (back : x < (w.bridge.store.object n).first) :
      TrimsBack n w (.event ch (.operate (.trim tp x)))

/-- The beginning goes back exactly when an object is trimmed to a position before it. -/
theorem first_use_lt_iff (hn : n < w.bridge.store.nextObject) (hu : ¬ w.SetsRange n u)
    (h : (w.bridge.store.object n).first ≤ (w.bridge.store.object n).last) :
    ((w.use u).bridge.store.object n).first < (w.bridge.store.object n).first ↔
      TrimsBack n w u := by
  have hkept : ∀ {p : Partition}, p.first = (w.bridge.store.object n).first →
      ¬ TrimsBack n w u → (p.first < (w.bridge.store.object n).first ↔ TrimsBack n w u) :=
    fun hp hno ↦ ⟨fun hlt ↦ absurd (hp ▸ hlt) Std.lt_irrefl, fun hyes ↦ absurd hyes hno⟩
  rcases shifts_use hn u with ⟨ch, op, rfl, hshifts⟩ | ⟨-, hno⟩
  · generalize (w.use (.event ch (.operate op))).bridge.store.object n = p at hshifts
    cases hshifts with
    | sets on => exact absurd on hu
    | appends on same | rolls on same => exact hkept (same ▸ rfl) (by rintro ⟨⟩)
    | @trims tp x on same =>
        rw [same]
        constructor
        · intro hlt
          refine ⟨on, Std.not_le.mp fun hle ↦ ?_⟩
          exact Std.not_lt.mpr (Position.le_min hle h) hlt
        · rintro ⟨-, back⟩
          rwa [Partition.first_trim_of_back h back]
    | spares elsewhere first last =>
        refine hkept first ?_
        rintro ⟨on, -⟩
        exact elsewhere on
  · refine hkept (range_use hno).1 ?_
    rintro ⟨-, -⟩
    exact hno _ _ rfl

theorem object_trim {tp : TopicPartition} (on : w.bridge.store.object? tp = some n) (ch : Choice)
    (x : Position) : (w.use (.event ch (.operate (.trim tp x)))).bridge.store.object n =
      (w.bridge.store.object n).trim x := by
  have htrim : (w.use (.event ch (.operate (.trim tp x)))).bridge = (w.bridge.onPartition tp
    fun p ↦ (.position (some (p.trim x).first), p.trim x)).2 := rfl
  rw [htrim, Bridge.onPartition, on]
  exact (Store.object_setObject ..).trans (if_pos rfl)

theorem first_le_use (hn : n < w.bridge.store.nextObject) (hu : ¬ w.SetsRange n u)
    (h : (w.bridge.store.object n).first ≤ (w.bridge.store.object n).last)
    (hback : ¬ TrimsBack n w u) :
    (w.bridge.store.object n).first ≤ ((w.use u).bridge.store.object n).first :=
  Std.not_lt.mp fun hlt ↦ hback ((first_use_lt_iff hn hu h).mp hlt)

/-- As long as nothing is trimmed back the beginning goes on. -/
theorem first_le_uses (hn : n < w.bridge.store.nextObject)
    (h : (w.bridge.store.object n).first ≤ (w.bridge.store.object n).last)
    (hus : w.Throughout us (Orderly n)) (hback : w.Throughout us fun v u ↦ ¬ TrimsBack n v u) :
    (w.bridge.store.object n).first ≤ ((w.uses us).bridge.store.object n).first := by
  induction us using List.reverseRecOn with
  | nil => exact Std.le_refl _
  | append_singleton us u ih =>
      rw [uses_append]
      refine Std.le_trans (ih hus.init hback.init) (first_le_use ?_ hus.last.1 ?_ hback.last)
      · exact Nat.lt_of_lt_of_le hn (evolves_uses w us)
      · exact (grown_uses hn h hus.init).ordered

/-- **Where retention goes back.**  However a partition that was created is appended to, closed and
trimmed, the next use takes its beginning back exactly when it trims it to a position before the
beginning, and then to that very position.  Between two moments without such a trim the beginning
goes on only, and so does the earliest offset. -/
theorem trim_alone_goes_back (w : World) (tp : TopicPartition) (ch : Choice) (us : List Use)
    (hnew : w.bridge.store.object? tp = none) :
    let n := (w.bridge.store.createPartition tp).1
    let start := w.use (.event ch (.operate (.createPartition tp)))
    let v := start.uses us
    start.Throughout us (Orderly n) →
    (∀ u, ¬ v.SetsRange n u →
      (((v.use u).bridge.store.object n).first < (v.bridge.store.object n).first ↔
        TrimsBack n v u)) ∧
    (∀ ch' tp' x, v.bridge.store.object? tp' = some n → x < (v.bridge.store.object n).first →
      ((v.use (.event ch' (.operate (.trim tp' x)))).bridge.store.object n).first = x) ∧
    ∀ before after, us = before ++ after →
      (start.uses before).Throughout after (fun v u ↦ ¬ TrimsBack n v u) →
      ((start.uses before).bridge.store.object n).first ≤ (v.bridge.store.object n).first ∧
      ∀ h h' : Handle, h.object = n → h'.object = n → ∀ o o',
        (start.uses before).bridge.minOffset (.ok h) = .ok o →
          v.bridge.minOffset (.ok h') = .ok o' → o ≤ o' := by
  intro n start v hus
  have hn : ∀ us, n < (start.uses us).bridge.store.nextObject := fun us ↦
    Nat.lt_of_lt_of_le (Store.createPartition_fst_lt hnew) (evolves_uses start us)
  have hordered : (v.bridge.store.object n).first ≤ (v.bridge.store.object n).last :=
    (grown_of_created ch hnew us [] ((List.append_nil us).symm ▸ hus)).1.ordered
  refine ⟨fun u hu ↦ first_use_lt_iff (hn us) hu hordered, fun ch' tp' x on back ↦ ?_, ?_⟩
  · rw [object_trim on]
    exact Partition.first_trim_of_back hordered back
  · rintro before after rfl hback
    have hbefore := (grown_of_created ch hnew before after hus).1.ordered
    have hfirst : ((start.uses before).bridge.store.object n).first ≤
        (v.bridge.store.object n).first := by
      have hle := first_le_uses (hn before) hbefore hus.rest hback
      rwa [← uses_append] at hle
    exact ⟨hfirst, fun h h' hh hh' o o' ho ho' ↦ Position.offset_le_of_le
      (Bridge.encode_of_minOffset hh ho) (Bridge.encode_of_minOffset hh' ho') hfirst⟩

/-- Two records, and a trim that drops the first one. -/
def trimmedForth : List Use :=
  [.onFirst .append, .onFirst .append, .onFirst (.trim · ⟨0, 2⟩)]

/-- A trim to the very beginning. -/
abbrev trimBack : Use := .onFirst (.trim · ⟨0, 0⟩)

theorem orderly_trimmedForth :
    ((loaded ∅).use (.onFirst .createPartition)).Throughout (trimmedForth ++ [trimBack])
      (Orderly 0) := by
  simp only [trimmedForth, List.cons_append, List.nil_append, throughout_cons]
  refine ⟨⟨id, ?_⟩, ⟨id, ?_⟩, ⟨id, id⟩, ⟨id, id⟩, throughout_nil⟩
  all_goals
    rintro ⟨-, hmax⟩
    exact absurd hmax (by decide +kernel)

theorem dropped_record_comes_back :
    let start := (loaded ∅).use (.onFirst .createPartition)
    let v := start.uses trimmedForth
    (loaded ∅).bridge.store.object? ⟨"t", 0⟩ = none ∧ start.Throughout trimmedForth (Orderly 0) ∧
      (start.bridge.store.object 0).first ≤ (v.bridge.store.object 0).first ∧
      v.bridge.minOffset (.ok ⟨0, none⟩) = .ok 2 ∧
      ((v.use trimBack).bridge.store.object 0).first < (v.bridge.store.object 0).first ∧
      ((v.use trimBack).bridge.store.object 0).first = .zero := by
  intro start v
  have horderly : start.Throughout trimmedForth (Orderly 0) := orderly_trimmedForth.init
  have hobject : ((loaded ∅).bridge.store.createPartition ⟨"t", 0⟩).1 = 0 := rfl
  have htrims := trim_alone_goes_back (loaded ∅) ⟨"t", 0⟩ .plain trimmedForth rfl
  rw [hobject] at htrims
  obtain ⟨hiff, hback, hforth⟩ := htrims horderly
  have hforward : start.Throughout trimmedForth fun v u ↦ ¬ TrimsBack 0 v u := by
    simp only [trimmedForth, throughout_cons]
    refine ⟨by rintro ⟨⟩, by rintro ⟨⟩, ?_, throughout_nil⟩
    rintro ⟨-, back⟩
    exact absurd back (by decide +kernel)
  have hlt : (⟨0, 0⟩ : Position) < (v.bridge.store.object 0).first := by decide +kernel
  exact ⟨rfl, horderly, (hforth [] trimmedForth rfl hforward).1, by decide +kernel,
    (hiff trimBack id).mpr ⟨rfl, hlt⟩, hback .plain ⟨"t", 0⟩ ⟨0, 0⟩ rfl hlt⟩

/-- Retention does not go on only: what one trim dropped another one brings back. -/
theorem not_retention_goes_on_only :
    ¬ ∀ (w : World) (tp : TopicPartition) (ch : Choice) (us : List Use),
      w.bridge.store.object? tp = none →
      let n := (w.bridge.store.createPartition tp).1
      let start := w.use (.event ch (.operate (.createPartition tp)))
      start.Throughout us (Orderly n) → ∀ before after, us = before ++ after →
        ((start.uses before).bridge.store.object n).first ≤
            ((start.uses us).bridge.store.object n).first ∧
          ∀ h o o', h.object = n → (start.uses before).bridge.minOffset (.ok h) = .ok o →
            (start.uses us).bridge.minOffset (.ok h) = .ok o' → o ≤ o' := by
  intro hgoesOn
  have hobject : ((loaded ∅).bridge.store.createPartition ⟨"t", 0⟩).1 = 0 := rfl
  have htrims := hgoesOn (loaded ∅) ⟨"t", 0⟩ .plain (trimmedForth ++ [trimBack]) rfl
  rw [hobject] at htrims
  obtain ⟨-, hmin⟩ := htrims orderly_trimmedForth trimmedForth [trimBack] rfl
  have hle := hmin ⟨0, none⟩ 2 0 rfl (by decide +kernel) (by decide +kernel)
  exact absurd hle (by decide)

end World

end GroupOffsets
