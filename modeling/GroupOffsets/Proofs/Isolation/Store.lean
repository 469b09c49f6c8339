import GroupOffsets.Proofs.Cursors

/-!
# Stores with hidden cursors

Two stores are alike but for the cursors of hidden groups when they agree on all else: on how they
behave, on which partitions there are and what is retained of them, and on the cursors of the other
groups.  Whatever is done to both of them keeps them alike, and no answer tells them apart, except
that the tail of a new partition moves up to all the cursors that wait for it.
-/

namespace GroupOffsets

/-! ## Partitions -/

namespace Partition

variable {hidden : String → Bool} {p p' : Partition} {g g' : String} {x : Position}

/-- Two partitions that differ at most in the cursors of hidden groups. -/
structure AlikeBut (hidden : String → Bool) (p p' : Partition) : Prop where
  name : p'.name = p.name
  first : p'.first = p.first
  last : p'.last = p.last
  cursor : ∀ g, hidden g = false → p'.cursor? g = p.cursor? g

theorem AlikeBut.refl (hidden : String → Bool) (p : Partition) : p.AlikeBut hidden p :=
  ⟨rfl, rfl, rfl, fun _ _ ↦ rfl⟩

/-- A hidden cursor may come or move. -/
theorem alikeBut_resetCursor (hg : hidden g = true) (p : Partition) (x : Position) :
    p.AlikeBut hidden (p.resetCursor g x) := by
  refine ⟨rfl, rfl, rfl, fun g' hg' ↦ ?_⟩
  rw [cursor?_resetCursor, if_neg]
  rintro rfl
  cases hg.symm.trans hg'

theorem AlikeBut.openCursorAt (h : p.AlikeBut hidden p') (g : String) (x : Position) :
    (p.openCursorAt g x).AlikeBut hidden (p'.openCursorAt g x) := by
  obtain ⟨cursors, hp⟩ := p.openCursorAt_eq g x
  obtain ⟨cursors', hp'⟩ := p'.openCursorAt_eq g x
  refine ⟨?_, ?_, ?_, fun g' hg' ↦ ?_⟩
  · rw [hp, hp', h.name]
  · rw [hp, hp', h.first]
  · rw [hp, hp', h.last]
  · rw [cursor?_openCursorAt, cursor?_openCursorAt, h.cursor g' hg']

theorem AlikeBut.openCursor (h : p.AlikeBut hidden p') (g : String) :
    (p.openCursor g).AlikeBut hidden (p'.openCursor g) := by
  have hopen := h.openCursorAt g p.last
  rwa [Partition.openCursor, Partition.openCursor, h.last]

theorem AlikeBut.resetCursor (h : p.AlikeBut hidden p') (g : String) (x : Position) :
    (p.resetCursor g x).AlikeBut hidden (p'.resetCursor g x) := by
  refine ⟨h.name, h.first, h.last, fun g' hg' ↦ ?_⟩
  rw [cursor?_resetCursor, cursor?_resetCursor, h.cursor g' hg']

theorem AlikeBut.setRange (h : p.AlikeBut hidden p') (x y : Position) :
    (p.setRange x y).AlikeBut hidden (p'.setRange x y) := ⟨h.name, rfl, rfl, h.cursor⟩

theorem AlikeBut.append (h : p.AlikeBut hidden p') : p.append.AlikeBut hidden p'.append := by
  refine ⟨h.name, h.first, ?_, h.cursor⟩
  rw [Partition.append, Partition.append, h.last]

theorem AlikeBut.roll (h : p.AlikeBut hidden p') : p.roll.AlikeBut hidden p'.roll := by
  refine ⟨h.name, h.first, ?_, h.cursor⟩
  rw [Partition.roll, Partition.roll, h.last]

theorem AlikeBut.trim (h : p.AlikeBut hidden p') (x : Position) :
    (p.trim x).AlikeBut hidden (p'.trim x) := by
  refine ⟨h.name, ?_, h.last, h.cursor⟩
  rw [Partition.trim, Partition.trim, h.last]

/-- The tail of a partition may move up. -/
theorem AlikeBut.restoreCursor (h : p.AlikeBut hidden p') (g : String) (x : Position) :
    (p.restoreCursor g x).AlikeBut hidden (p'.restoreCursor g x) := by
  have hraised : AlikeBut hidden { p with last := p.last.max x } { p' with last := p.last.max x } :=
    ⟨h.name, h.first, rfl, h.cursor⟩
  rw [Partition.restoreCursor, Partition.restoreCursor, h.last]
  exact hraised.openCursorAt g x

theorem AlikeBut.foldl_restore (h : p.AlikeBut hidden p') (cs : List (CursorKey × Position)) :
    (cs.foldl (fun p c ↦ p.restoreCursor c.1.group c.2) p).AlikeBut hidden
      (cs.foldl (fun p c ↦ p.restoreCursor c.1.group c.2) p') := by
  induction cs generalizing p p' with
  | nil => exact h
  | cons c cs ih => exact ih (h.restoreCursor c.1.group c.2)

end Partition

/-! ## Stores -/

namespace Store

variable {hidden : String → Bool} {created : List TopicPartition} {s s' : Store}
variable {tp : TopicPartition} {g : String} {n : Nat}

/-- The store with other objects, and other cursors that wait for their partition. -/
def holding (s : Store) (objects : Std.ExtTreeMap Nat Partition) (pending : CursorPoints) : Store :=
  { s with objects, pending }

/-- Two stores that differ at most in the cursors of hidden groups.  Those that wait for a partition
that will be created are the same in both. -/
structure AlikeBut (hidden : String → Bool) (created : List TopicPartition) (s s' : Store) :
    Prop where
  same : s' = s.holding s'.objects s'.pending
  object : ∀ n, (s.object n).AlikeBut hidden (s'.object n)
  pending : ∀ k : CursorKey, hidden k.group = false ∨ k.on ∈ created →
    s'.pending[k]? = s.pending[k]?

theorem AlikeBut.exists_eq (hs : s.AlikeBut hidden created s') :
    ∃ objects pending, s' = s.holding objects pending := ⟨_, _, hs.same⟩

/-! ### Lookups -/

section Holding

variable {objects : Std.ExtTreeMap Nat Partition} {pending : CursorPoints}

theorem locateOwner_holding : (s.holding objects pending).locateOwner tp =
    ((s.locateOwner tp).1, (s.locateOwner tp).2.holding objects pending) := by
  by_cases hfailing : 0 < s.failing
  · simp [locateOwner, holding, hfailing]
  · by_cases hunavailable : tp ∈ s.unavailable
    · simp [locateOwner, holding, hfailing, hunavailable]
    · simp [locateOwner, holding, hfailing, hunavailable]

theorem getPartition_holding (owner : String) :
    (s.holding objects pending).getPartition tp owner = s.getPartition tp owner := rfl

/-- A lookup does not look into the partitions. -/
theorem lookup_holding : (s.holding objects pending).lookup tp =
    ((s.lookup tp).1, (s.lookup tp).2.holding objects pending) := by
  simp only [lookup, locateOwner_holding]
  rcases s.locateOwner tp with ⟨e | owner, s'⟩
  · rfl
  · have hfaults : (s'.holding objects pending).faults = s'.faults := rfl
    simp only [getPartition_holding, hfaults]
    split
    · rfl
    · rfl
    · rfl
    · split
      · rfl
      · rfl
      · split <;> rfl

end Holding

/-! ### Objects -/

theorem AlikeBut.firstPosition (hs : s.AlikeBut hidden created s') (h : Handle) :
    s'.firstPosition h = s.firstPosition h := by
  rw [Store.firstPosition, Store.firstPosition, partition, partition, (hs.object h.object).first]

theorem AlikeBut.lastPosition (hs : s.AlikeBut hidden created s') (h : Handle) :
    s'.lastPosition h = s.lastPosition h := by
  rw [Store.lastPosition, Store.lastPosition, partition, partition, (hs.object h.object).last]

theorem AlikeBut.setObject (hs : s.AlikeBut hidden created s') (n : Nat) {p p' : Partition}
    (hp : p.AlikeBut hidden p') :
    (s.setObject n p).AlikeBut hidden created (s'.setObject n p') := by
  refine ⟨?_, fun m ↦ ?_, hs.pending⟩
  · obtain ⟨objects, pending, rfl⟩ := hs.exists_eq
    rfl
  · rw [object_setObject, object_setObject]
    split
    · exact hp
    · exact hs.object m

theorem alikeBut_setObject {p : Partition} (hp : (s.object n).AlikeBut hidden p) :
    s.AlikeBut hidden created (s.setObject n p) := by
  refine ⟨rfl, fun m ↦ ?_, fun _ _ ↦ rfl⟩
  rw [object_setObject]
  split
  · rename_i hm
    exact hm ▸ hp
  · exact .refl hidden _

/-- A cursor is written the same way. -/
theorem AlikeBut.writeCursor (hs : s.AlikeBut hidden created s') (h : Handle) (g : String)
    (x : Position) : (s'.writeCursor h g x).1 = (s.writeCursor h g x).1 ∧
      (s.writeCursor h g x).2.AlikeBut hidden created (s'.writeCursor h g x).2 := by
  have hopen := (hs.object h.object).openCursor g
  rw [Store.writeCursor, Store.writeCursor]
  split
  · exact ⟨rfl, hs⟩
  · dsimp only
    split
    · exact ⟨rfl, hs.setObject _ hopen⟩
    · exact ⟨rfl, hs.setObject _ (hopen.resetCursor g x)⟩

theorem AlikeBut.allocate (hs : s.AlikeBut hidden created s') (p : Partition) :
    (s'.allocate p).1 = (s.allocate p).1 ∧
      (s.allocate p).2.AlikeBut hidden created (s'.allocate p).2 := by
  have hnext : s'.nextObject = s.nextObject := by rw [hs.same]; rfl
  refine ⟨hnext, ?_, ?_, ?_⟩
  · obtain ⟨objects, pending, rfl⟩ := hs.exists_eq
    rfl
  · intro m
    rw [object_allocate, object_allocate, hnext]
    split
    · exact .refl hidden p
    · exact hs.object m
  · exact hs.pending

theorem AlikeBut.object? (hs : s.AlikeBut hidden created s') (tp : TopicPartition) :
    s'.object? tp = s.object? tp := by
  obtain ⟨objects, pending, rfl⟩ := hs.exists_eq
  rfl

theorem AlikeBut.deletePartition (hs : s.AlikeBut hidden created s') (tp : TopicPartition) :
    (s'.deletePartition tp).1 = (s.deletePartition tp).1 ∧
      (s.deletePartition tp).2.AlikeBut hidden created (s'.deletePartition tp).2 := by
  refine ⟨?_, ?_, hs.object, hs.pending⟩
  · obtain ⟨objects, pending, rfl⟩ := hs.exists_eq
    rfl
  · obtain ⟨objects, pending, rfl⟩ := hs.exists_eq
    rfl

/-! ### Creating a partition -/

theorem AlikeBut.ensure (hs : s.AlikeBut hidden created s') (tp : TopicPartition) :
    (s'.ensure tp).1 = (s.ensure tp).1 ∧
      (s.ensure tp).2.AlikeBut hidden created (s'.ensure tp).2 := by
  rw [Store.ensure, Store.ensure, hs.object? tp]
  cases s.object? tp with
  | some n => exact ⟨rfl, hs⟩
  | none =>
      obtain ⟨hnumber, hallocate⟩ := hs.allocate (.new tp)
      refine ⟨hnumber, ?_, hallocate.object, hallocate.pending⟩
      obtain ⟨objects, pending, rfl⟩ := hs.exists_eq
      rfl

/-- The cursors that wait for a partition that will be created are the same. -/
theorem AlikeBut.pendingOn (hs : s.AlikeBut hidden created s') (htp : tp ∈ created) :
    s'.pendingOn tp = s.pendingOn tp := by
  have hfilter : s'.pending.filter (fun k _ ↦ k.on == tp) =
      s.pending.filter fun k _ ↦ k.on == tp := by
    refine Std.ExtTreeMap.ext_getElem? fun k ↦ ?_
    rw [Std.ExtTreeMap.getElem?_filter', Std.ExtTreeMap.getElem?_filter']
    by_cases hk : k.on = tp
    · rw [hs.pending k (.inr (hk ▸ htp))]
    · have hon : (k.on == tp) = false := beq_eq_false_iff_ne.mpr hk
      simp [hon]
  have hlist := congrArg Std.ExtTreeMap.toList hfilter
  rwa [Std.ExtTreeMap.toList_filter, Std.ExtTreeMap.toList_filter] at hlist

theorem AlikeBut.createPartition (hs : s.AlikeBut hidden created s') (htp : tp ∈ created) :
    (s'.createPartition tp).1 = (s.createPartition tp).1 ∧
      (s.createPartition tp).2.AlikeBut hidden created (s'.createPartition tp).2 := by
  obtain ⟨hnumber, hensure⟩ := hs.ensure tp
  have hrestored : (s.restored tp).AlikeBut hidden (s'.restored tp) := by
    -- the tail moves up to every cursor that waits, so the hidden ones have to be the same
    rw [restored, restored, hs.pendingOn htp, hnumber]
    exact (hensure.object _).foldl_restore _
  have hset := hensure.setObject (s.ensure tp).1 hrestored
  refine ⟨hnumber, ?_⟩
  rw [createPartition_eq, createPartition_eq, hnumber]
  refine ⟨?_, hset.object, fun k hk ↦ ?_⟩
  · obtain ⟨objects, pending, hsame⟩ := hset.exists_eq
    rw [hsame]
    rfl
  · dsimp only
    rw [Std.ExtTreeMap.getElem?_filter', Std.ExtTreeMap.getElem?_filter', hs.pending k hk]

/-! ### What can be told -/

theorem AlikeBut.cursorOf (hs : s.AlikeBut hidden created s') (hg : hidden g = false)
    (tp : TopicPartition) : s'.cursorOf tp g = s.cursorOf tp g := by
  rw [Store.cursorOf, Store.cursorOf, hs.object? tp]
  cases s.object? tp with
  | none => rfl
  | some n => exact (hs.object n).cursor g hg

/-- A flush writes the same for the other groups. -/
theorem AlikeBut.points (hs : s.AlikeBut hidden created s') (hg : hidden g = false)
    (tp : TopicPartition) :
    s'.points[(⟨g, tp⟩ : CursorKey)]? = s.points[(⟨g, tp⟩ : CursorKey)]? := by
  rw [getElem?_points, getElem?_points, hs.cursorOf hg, hs.pending ⟨g, tp⟩ (.inl hg)]

/-! ## Stores that leave a group alone -/

/-- The cursors of a group stay as they are: those on all objects, and those that wait. -/
structure KeepsCursors (g : String) (s s' : Store) : Prop where
  cursor : ∀ n < s.nextObject, (s'.object n).cursor? g = (s.object n).cursor? g
  pending : s'.pending = s.pending

theorem KeepsCursors.refl (g : String) (s : Store) : KeepsCursors g s s := ⟨fun _ _ ↦ rfl, rfl⟩

theorem keepsCursors_setObject {p : Partition} (hp : p.cursor? g = (s.object n).cursor? g) :
    KeepsCursors g s (s.setObject n p) := by
  refine ⟨fun m _ ↦ ?_, rfl⟩
  rw [object_setObject]
  split
  · rename_i hm
    rw [hp, hm]
  · rfl

theorem keepsCursors_allocate (g : String) (s : Store) (p : Partition) :
    KeepsCursors g s (s.allocate p).2 := by
  refine ⟨fun m hm ↦ ?_, rfl⟩
  rw [object_allocate, if_neg (Nat.ne_of_lt hm)]

theorem keepsCursors_writeCursor (s : Store) (h : Handle) {g' : String} (hg : g ≠ g')
    (x : Position) : KeepsCursors g s (s.writeCursor h g' x).2 := by
  obtain hs | ⟨p, hs, -, hothers, -⟩ := s.writeCursor_cases h g' x
  · rw [hs]
    apply KeepsCursors.refl
  · rw [hs]
    exact keepsCursors_setObject (hothers g hg)

end Store

end GroupOffsets
