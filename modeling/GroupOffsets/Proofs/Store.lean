import GroupOffsets.Proofs.Entries
import GroupOffsets.Store

/-!
# Cursors in the store

A durable cursor is attached to an existing partition, or it waits in the store for its partition
to be created.  `Store.cursorOf` is the attached one, and the lemmas say what creating a partition,
writing a cursor and looking a partition up make of it; `Store.getElem?_points` is what a flush
hands to the checkpoint.
-/

namespace GroupOffsets

/-! ## Partitions -/

namespace Partition

variable {p : Partition} {g g' : String} {x y : Position}

@[simp] theorem name_restoreCursor : (p.restoreCursor g x).name = p.name := by
  rw [restoreCursor, openCursorAt]
  split <;> rfl

theorem openCursorAt_eq (p : Partition) (g : String) (x : Position) :
    ∃ cursors, p.openCursorAt g x = { p with cursors } := by
  rw [openCursorAt]
  split <;> exact ⟨_, rfl⟩

/-- A cursor that is there already keeps its place. -/
theorem cursor?_openCursorAt : (p.openCursorAt g x).cursor? g' =
    (p.cursor? g').or (if g = g' then some x else none) := by
  rw [openCursorAt]
  split
  · rename_i hg
    by_cases hgg : g = g'
    · subst hgg
      obtain ⟨y, hy⟩ := Option.isSome_iff_exists.mp
        (Std.ExtTreeMap.mem_iff_isSome_getElem?.mp (Std.ExtTreeMap.contains_iff_mem.mp hg))
      have hy : p.cursors[g]? = some y := hy
      simp [cursor?, hy]
    · simp [cursor?, hgg]
  · rename_i hg
    have hnone : p.cursors[g]? = none := by simpa using hg
    by_cases hgg : g = g'
    · subst hgg
      simp [cursor?, hnone]
    · simp [cursor?, Std.ExtTreeMap.getElem?_insert, hgg]

theorem cursor?_restoreCursor : (p.restoreCursor g x).cursor? g' =
    (p.cursor? g').or (if g = g' then some x else none) := by
  rw [restoreCursor, cursor?_openCursorAt]
  rfl

theorem cursor?_resetCursor : (p.resetCursor g x).cursor? g' =
    if g = g' then some x else p.cursor? g' := by
  simp [cursor?, resetCursor, Std.ExtTreeMap.getElem?_insert]

variable {cs : List (CursorKey × Position)}

theorem name_foldl_restore :
    (cs.foldl (fun p c ↦ p.restoreCursor c.1.group c.2) p).name = p.name := by
  induction cs generalizing p with
  | nil => rfl
  | cons c cs ih => rw [List.foldl_cons, ih, name_restoreCursor]

theorem cursor?_foldl_restore :
    (cs.foldl (fun p c ↦ p.restoreCursor c.1.group c.2) p).cursor? g =
      (p.cursor? g).or ((cs.find? (·.1.group = g)).map (·.2)) := by
  induction cs generalizing p with
  | nil => simp
  | cons c cs ih =>
      rw [List.foldl_cons, ih, cursor?_restoreCursor, Option.or_assoc]
      by_cases hg : c.1.group = g
      · simp [hg]
      · simp [hg]

end Partition

/-! ## Stores -/

namespace Store

variable {s : Store} {tp tp' : TopicPartition} {g g' : String} {n : Nat} {x : Position}

/-- Where the cursor of a group on an existing partition stands. -/
def cursorOf (s : Store) (tp : TopicPartition) (g : String) : Option Position :=
  (s.object? tp).bind fun n ↦ (s.object n).cursor? g

/-- The objects of the existing partitions are theirs alone, and those to come are new. -/
structure Tidy (s : Store) : Prop where
  old : ∀ {tp n}, s.object? tp = some n → n < s.nextObject
  apart : ∀ {tp tp' n}, s.object? tp = some n → s.object? tp' = some n → tp = tp'
  named : ∀ {tp n}, s.object? tp = some n → (s.object n).name = tp

theorem tidy_new (owner : String) (points : CursorPoints) : (new owner points).Tidy := by
  constructor <;> simp [new, object?]

/-! ### What a flush writes -/

/-- The cursors on existing partitions. -/
def attached (s : Store) : List (CursorKey × Position) :=
  s.served.toList.flatMap fun e ↦
    (s.object e.2).cursors.toList.map fun c ↦ (⟨c.1, e.1⟩, c.2)

theorem points_eq : s.points = s.pending.insertMany s.attached := by
  have hinner : ∀ (tp : TopicPartition) (cs : List (String × Position)) (acc : CursorPoints),
      cs.foldl (fun acc c ↦ acc.insert ⟨c.1, tp⟩ c.2) acc =
        acc.insertMany (cs.map fun c ↦ ((⟨c.1, tp⟩ : CursorKey), c.2)) := by
    intro tp cs acc
    rw [Std.ExtTreeMap.insertMany_list_eq_foldl, List.foldl_map]
  have houter : ∀ (es : List (TopicPartition × Nat)) (acc : CursorPoints),
      es.foldl (fun acc e ↦ (s.object e.2).cursors.foldl
          (fun acc group position ↦ acc.insert ⟨group, e.1⟩ position) acc) acc =
        acc.insertMany (es.flatMap fun e ↦
          (s.object e.2).cursors.toList.map fun c ↦ ((⟨c.1, e.1⟩ : CursorKey), c.2)) := by
    intro es
    induction es with
    | nil => exact fun acc ↦ Std.ExtTreeMap.insertMany_nil.symm
    | cons e es ih =>
        intro acc
        rw [List.foldl_cons, ih, Std.ExtTreeMap.foldl_eq_foldl_toList, hinner, List.flatMap_cons]
        simp only [Std.ExtTreeMap.insertMany_list_eq_foldl, List.foldl_append]
  rw [points, Std.ExtTreeMap.foldl_eq_foldl_toList, houter]
  rfl

theorem mem_attached : (⟨g, tp⟩, x) ∈ s.attached ↔ s.cursorOf tp g = some x := by
  simp [attached, cursorOf, object?, Partition.cursor?, Option.bind_eq_some_iff]

theorem nodup_attached : (s.attached.map Prod.fst).Nodup := by
  rw [attached, List.map_flatMap, List.nodup_flatMap]
  constructor
  · rintro ⟨tp, n⟩ -
    have hmap :
        ((s.object n).cursors.toList.map fun c ↦ ((⟨c.1, tp⟩ : CursorKey), c.2)).map Prod.fst =
          ((s.object n).cursors.toList.map Prod.fst).map fun g ↦ ⟨g, tp⟩ := by
      rw [List.map_map, List.map_map]
      rfl
    rw [hmap]
    apply (nodup_fst_toList _).map
    intro g g' hg
    cases hg
    rfl
  · refine (List.pairwise_map.mp (nodup_fst_toList s.served)).imp ?_
    intro e e' hne k hk hk'
    obtain ⟨_, hx, rfl⟩ := List.mem_map.mp hk
    obtain ⟨_, -, rfl⟩ := List.mem_map.mp hx
    obtain ⟨_, hx', heq⟩ := List.mem_map.mp hk'
    obtain ⟨_, -, rfl⟩ := List.mem_map.mp hx'
    exact hne (congrArg CursorKey.on heq).symm

/-- Every durable cursor is attached to its partition, or waits for it; the attached one counts. -/
theorem getElem?_points (s : Store) (g : String) (tp : TopicPartition) :
    s.points[(⟨g, tp⟩ : CursorKey)]? = (s.cursorOf tp g).or s.pending[(⟨g, tp⟩ : CursorKey)]? := by
  rw [points_eq]
  cases hc : s.cursorOf tp g with
  | some x => exact getElem?_insertMany_of_mem _ nodup_attached (mem_attached.mpr hc)
  | none =>
      rw [getElem?_insertMany_of_not_mem, Option.none_or]
      intro hmem
      obtain ⟨⟨k, x⟩, hx, rfl⟩ := List.mem_map.mp hmem
      rw [mem_attached.mp hx] at hc
      cases hc

/-! ### Changing an object -/

theorem object_setObject (p : Partition) (m : Nat) :
    (s.setObject n p).object m = if m = n then p else s.object m := by
  by_cases hm : m = n
  · subst hm
    simp [setObject, object]
  · have hne : n ≠ m := fun h ↦ hm h.symm
    simp [setObject, object, Std.ExtTreeMap.getElem?_insert, hm, hne]

@[simp] theorem object?_setObject (p : Partition) :
    (s.setObject n p).object? tp = s.object? tp := rfl

theorem Tidy.setObject (h : s.Tidy) (hn : s.object? tp = some n) {p : Partition}
    (hname : p.name = tp) : (s.setObject n p).Tidy where
  old := h.old
  apart := h.apart
  named := by
    intro tp' m hm
    rw [object_setObject]
    split
    · rename_i heq
      exact hname.trans (h.apart hn (heq ▸ hm))
    · exact h.named hm

/-- An object has one partition, so a change of it shows nowhere else. -/
theorem cursorOf_setObject (h : s.Tidy) (hn : s.object? tp = some n) (p : Partition) :
    (s.setObject n p).cursorOf tp' g = if tp' = tp then p.cursor? g else s.cursorOf tp' g := by
  by_cases htp : tp' = tp
  · subst htp
    simp [cursorOf, hn, object_setObject]
  · rw [if_neg htp, cursorOf, cursorOf, object?_setObject]
    cases hm : s.object? tp' with
    | none => rfl
    | some m =>
        have hne : m ≠ n := fun heq ↦ htp (h.apart hm (heq ▸ hn))
        simp [object_setObject, hne]

/-! ### Creating a partition -/

theorem object?_ensure (s : Store) (tp tp' : TopicPartition) :
    (s.ensure tp).2.object? tp' = if tp' = tp then some (s.ensure tp).1 else s.object? tp' := by
  rw [ensure]
  split
  · rename_i n hn
    by_cases htp : tp' = tp
    · simp [htp, hn]
    · simp [htp]
  · by_cases htp : tp' = tp
    · simp [htp, object?, allocate, setObject]
    · have hne : tp ≠ tp' := fun h ↦ htp h.symm
      simp [htp, hne, object?, allocate, setObject, Std.ExtTreeMap.getElem?_insert]

@[simp] theorem pending_ensure : (s.ensure tp).2.pending = s.pending := by
  rw [ensure]
  split <;> rfl

theorem object_ensure_of_none (h : s.object? tp = none) (m : Nat) : (s.ensure tp).2.object m =
    if m = s.nextObject then .new tp else s.object m := by
  rw [ensure, h]
  exact object_setObject _ m

theorem ensure_of_some (h : s.object? tp = some n) : s.ensure tp = (n, s) := by
  rw [ensure, h]

theorem ensure_fst_of_none (h : s.object? tp = none) : (s.ensure tp).1 = s.nextObject := by
  rw [ensure, h]
  rfl

/-- Objects that there are already are not touched. -/
theorem object_ensure_of_lt (hn : n < s.nextObject) (tp : TopicPartition) :
    (s.ensure tp).2.object n = s.object n := by
  cases htp : s.object? tp with
  | some m => rw [ensure_of_some htp]
  | none => rw [object_ensure_of_none htp, if_neg (Nat.ne_of_lt hn)]

theorem Tidy.ensure (h : s.Tidy) (tp : TopicPartition) : (s.ensure tp).2.Tidy := by
  cases hn : s.object? tp with
  | some n => rwa [ensure_of_some hn]
  | none =>
      have hnext : (s.ensure tp).2.nextObject = s.nextObject + 1 := by
        rw [Store.ensure, hn]
        rfl
      have hcases : ∀ {tp' m}, (s.ensure tp).2.object? tp' = some m →
          tp' = tp ∧ m = s.nextObject ∨ tp' ≠ tp ∧ s.object? tp' = some m ∧ m < s.nextObject := by
        intro tp' m hm
        rw [object?_ensure, ensure_fst_of_none hn] at hm
        split at hm
        · rename_i htp
          exact .inl ⟨htp, (Option.some.inj hm).symm⟩
        · rename_i htp
          exact .inr ⟨htp, hm, h.old hm⟩
      refine ⟨fun hm ↦ ?_, fun hm hm' ↦ ?_, fun hm ↦ ?_⟩
      · rw [hnext]
        rcases hcases hm with ⟨-, rfl⟩ | ⟨-, -, hlt⟩ <;> omega
      · rcases hcases hm with ⟨rfl, rfl⟩ | ⟨-, hm, hlt⟩ <;>
          rcases hcases hm' with ⟨rfl, heq⟩ | ⟨-, hm', hlt'⟩
        · rfl
        · omega
        · omega
        · exact h.apart hm hm'
      · rw [object_ensure_of_none hn]
        rcases hcases hm with ⟨rfl, rfl⟩ | ⟨-, hm, hlt⟩
        · simp [Partition.new]
        · rw [if_neg (by omega), h.named hm]

/-- A partition that is made has no cursors, so none comes or goes. -/
theorem cursorOf_ensure (h : s.Tidy) : (s.ensure tp).2.cursorOf tp' g = s.cursorOf tp' g := by
  cases hn : s.object? tp with
  | some n => rw [ensure_of_some hn]
  | none =>
      rw [cursorOf, cursorOf, object?_ensure, ensure_fst_of_none hn]
      split
      · rename_i htp
        rw [htp, hn, Option.bind_some, object_ensure_of_none hn, if_pos rfl]
        rfl
      · cases hm : s.object? tp' with
        | none => rfl
        | some m =>
            rw [Option.bind_some, Option.bind_some, object_ensure_of_none hn,
              if_neg (Nat.ne_of_lt (h.old hm))]

theorem find?_pendingOn (s : Store) (tp : TopicPartition) (g : String) :
    ((s.pendingOn tp).find? (·.1.group = g)).map (·.2) = s.pending[(⟨g, tp⟩ : CursorKey)]? := by
  have hkey : ∀ {c : CursorKey × Position}, c ∈ s.pendingOn tp → c.1.group = g →
      s.pending[(⟨g, tp⟩ : CursorKey)]? = some c.2 := by
    rintro ⟨⟨g', tp'⟩, x⟩ hc rfl
    obtain ⟨hmem, htp⟩ := List.mem_filter.mp hc
    rw [← eq_of_beq htp]
    exact Std.ExtTreeMap.mem_toList_iff_getElem?_eq_some.mp hmem
  cases hf : (s.pendingOn tp).find? (·.1.group = g) with
  | some c =>
      exact (hkey (List.mem_of_find?_eq_some hf) (by simpa using List.find?_some hf)).symm
  | none =>
      cases hp : s.pending[(⟨g, tp⟩ : CursorKey)]? with
      | none => rfl
      | some x =>
          have hmem : ((⟨g, tp⟩ : CursorKey), x) ∈ s.pendingOn tp :=
            List.mem_filter.mpr ⟨Std.ExtTreeMap.mem_toList_iff_getElem?_eq_some.mpr hp, by simp⟩
          have hnot := List.find?_eq_none.mp hf _ hmem
          simp at hnot

/-- The object of a partition with the cursors that waited for it. -/
def restored (s : Store) (tp : TopicPartition) : Partition :=
  (s.pendingOn tp).foldl (fun p c ↦ p.restoreCursor c.1.group c.2)
    ((s.ensure tp).2.object (s.ensure tp).1)

theorem createPartition_eq (s : Store) (tp : TopicPartition) : (s.createPartition tp).2 =
    { (s.ensure tp).2.setObject (s.ensure tp).1 (s.restored tp) with
      pending := s.pending.filter fun k _ ↦ k.on != tp } := by
  rw [createPartition]
  simp only [pending_ensure]
  rfl

theorem object_createPartition (s : Store) (tp : TopicPartition) (m : Nat) :
    (s.createPartition tp).2.object m =
      if m = (s.ensure tp).1 then s.restored tp else (s.ensure tp).2.object m := by
  rw [createPartition_eq]
  exact object_setObject _ m

theorem object_createPartition_self (s : Store) (tp : TopicPartition) :
    (s.createPartition tp).2.object (s.createPartition tp).1 = s.restored tp :=
  (object_createPartition ..).trans (if_pos rfl)

theorem object?_createPartition : (s.createPartition tp).2.object? tp' =
    if tp' = tp then some (s.ensure tp).1 else s.object? tp' := by
  rw [createPartition_eq]
  exact object?_ensure s tp tp'

theorem pending_createPartition (k : CursorKey) :
    (s.createPartition tp).2.pending[k]? = if k.on = tp then none else s.pending[k]? := by
  rw [createPartition_eq, Std.ExtTreeMap.getElem?_filter']
  by_cases h : k.on = tp
  · cases s.pending[k]? <;> simp [h]
  · cases s.pending[k]? <;> simp [h]

theorem Tidy.createPartition (h : s.Tidy) (tp : TopicPartition) :
    (s.createPartition tp).2.Tidy := by
  have hself : (s.ensure tp).2.object? tp = some (s.ensure tp).1 := by simp [object?_ensure]
  have hname : (s.restored tp).name = tp := by
    rw [restored, Partition.name_foldl_restore, (h.ensure tp).named hself]
  have hset := (h.ensure tp).setObject hself hname
  rw [createPartition_eq]
  exact ⟨hset.old, hset.apart, hset.named⟩

/-- The cursors that waited for a partition are attached to it now, unless it had them already. -/
theorem cursorOf_createPartition (h : s.Tidy) : (s.createPartition tp).2.cursorOf tp' g =
    (s.cursorOf tp' g).or (if tp' = tp then s.pending[(⟨g, tp⟩ : CursorKey)]? else none) := by
  have hself : (s.ensure tp).2.object? tp = some (s.ensure tp).1 := by simp [object?_ensure]
  have hcursor : ((s.ensure tp).2.object (s.ensure tp).1).cursor? g = s.cursorOf tp g := by
    rw [← cursorOf_ensure h, cursorOf, hself, Option.bind_some]
  have hset : (s.createPartition tp).2.cursorOf tp' g =
      ((s.ensure tp).2.setObject (s.ensure tp).1 (s.restored tp)).cursorOf tp' g := by
    rw [createPartition_eq]
    rfl
  rw [hset, cursorOf_setObject (h.ensure tp) hself]
  split
  · rename_i htp
    rw [htp, restored, Partition.cursor?_foldl_restore, find?_pendingOn, hcursor]
  · rw [cursorOf_ensure h, Option.or_none]

/-! ### Writing a cursor -/

theorem writeCursor_plain (s : Store) (n : Nat) (g : String) (x : Position) :
    s.writeCursor ⟨n, none⟩ g x =
      (.ok (), s.setObject n (((s.object n).openCursor g).resetCursor g x)) := rfl

theorem cursor?_resetCursor {p : Partition} :
    ((p.openCursor g).resetCursor g x).cursor? g' = if g' = g then some x else p.cursor? g' := by
  rw [Partition.cursor?_resetCursor, Partition.openCursor, Partition.cursor?_openCursorAt]
  by_cases hg : g = g'
  · simp [hg]
  · simp [hg, Ne.symm hg]

theorem name_resetCursor {p : Partition} : ((p.openCursor g).resetCursor g x).name = p.name := by
  rw [Partition.openCursor, Partition.openCursorAt]
  split <;> rfl

/-! ### Looking a partition up -/

theorem locateOwner_eq (s : Store) (tp : TopicPartition) : ∃ failing,
    (s.locateOwner tp).2 = { s with failing } := by
  rw [locateOwner]
  split
  · exact ⟨_, rfl⟩
  · split <;> exact ⟨_, rfl⟩

/-- A lookup counts, at most. -/
theorem lookup_eq (s : Store) (tp : TopicPartition) : ∃ failing nextWrapper,
    (s.lookup tp).2 = { s with failing, nextWrapper } := by
  obtain ⟨failing, hs⟩ := locateOwner_eq s tp
  rw [lookup]
  split
  · rename_i e s' heq
    rw [heq] at hs
    exact ⟨failing, s.nextWrapper, hs⟩
  · rename_i owner s' heq
    rw [heq] at hs
    dsimp only at hs
    subst hs
    split
    · exact ⟨_, _, rfl⟩
    · exact ⟨_, _, rfl⟩
    · exact ⟨_, _, rfl⟩
    · dsimp only
      split
      · exact ⟨_, _, rfl⟩
      · exact ⟨_, _, rfl⟩
      · split <;> exact ⟨_, _, rfl⟩

/-- How many lookups were begun does not matter to a lookup. -/
theorem lookup_beginLookup : (s.beginLookup.lookup tp).1 = (s.lookup tp).1 := by
  have hlocate : s.beginLookup.locateOwner tp =
      ((s.locateOwner tp).1, (s.locateOwner tp).2.beginLookup) := by
    simp only [locateOwner]
    change (if 0 < s.failing then _ else if s.unavailable.contains tp then _ else _) = _
    split
    · rfl
    · split <;> rfl
  simp only [lookup, hlocate]
  rcases s.locateOwner tp with ⟨e | owner, s'⟩
  · rfl
  · have hget : ∀ named, s'.beginLookup.getPartition tp named = s'.getPartition tp named :=
      fun _ ↦ rfl
    have hfaults : s'.beginLookup.faults = s'.faults := rfl
    simp only [hget, hfaults]
    split
    · rfl
    · rfl
    · rfl
    · split
      · rfl
      · rfl
      · split <;> rfl

/-- What is found is the object of the partition. -/
theorem lookup_found {hd : Handle} (h : (s.lookup tp).1 = .found hd) :
    s.object? tp = some hd.object := by
  obtain ⟨failing, hs⟩ := locateOwner_eq s tp
  have hget : ∀ {owner hd'}, ({ s with failing } : Store).getPartition tp owner = .ok (some hd') →
      s.object? tp = some hd'.object := by
    intro owner hd' heq
    have hobject : ({ s with failing } : Store).object? tp = s.object? tp := rfl
    rw [getPartition, hobject] at heq
    split at heq
    · cases heq
    · obtain ⟨n, hn, rfl⟩ := Option.map_eq_some_iff.mp (Except.ok.inj heq)
      exact hn
  rw [lookup] at h
  split at h
  · cases h
  · rename_i owner s' heq
    rw [heq] at hs
    dsimp only at hs
    subst hs
    split at h
    · cases h
    · cases h
    · cases h
    · dsimp only at h
      split at h
      · cases h
      · cases h
      · rename_i hd' heq'
        have hobject := hget heq'
        split at h
        · cases h
          exact hobject
        · cases h
          exact hobject

/-- What does not exist is not found. -/
theorem lookup_ne_found (h : s.object? tp = none) (hd : Handle) : (s.lookup tp).1 ≠ .found hd := by
  intro hfound
  cases h.symm.trans (lookup_found hfound)

end Store

end GroupOffsets
