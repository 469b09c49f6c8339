import GroupOffsets.Proofs.Position
import GroupOffsets.Proofs.Provenance

/-!
# The range of a partition

A partition retains the records from its first position to its last one.  Appending a record and
closing a segment move the last position on, trimming moves the first one to wherever it is told,
but not beyond the last, and cursors that are restored move the last one up.  All this is said of an
object of the store, whatever else is done to the bridge meanwhile.
-/

namespace GroupOffsets

open World (Choice Event Task)

/-! ## Partitions -/

theorem lt_add_one_of_ne_maxValue {k : Int64} (h : k ≠ Int64.maxValue) : k < k + 1 := by
  have hone : (1 : Int64).toInt = 1 := by decide
  have hmax : k.toInt ≠ Int64.maxValue.toInt := fun heq ↦ h (Int64.toInt_inj.mp heq)
  have hlt := k.toInt_lt
  have hle := k.le_toInt
  rw [Int64.toInt_maxValue] at hmax
  rw [Int64.lt_iff_toInt_lt, Int64.toInt_add, hone, Int.bmod_eq_of_le] <;> omega

namespace Partition

variable {p : Partition} {g : String} {x : Position} {c : CursorKey × Position}
variable {cs : List (CursorKey × Position)}

/-- An appended record comes after all others, unless there is no number left for it. -/
theorem last_lt_append (h : p.last.entry ≠ Int64.maxValue) : p.last < p.append.last :=
  Position.lt_iff.mpr (.inr ⟨rfl, lt_add_one_of_ne_maxValue h⟩)

/-- A new segment comes after all others, unless there is no number left for it. -/
theorem last_lt_roll (h : p.last.segment ≠ Int64.maxValue) : p.last < p.roll.last :=
  Position.lt_iff.mpr (.inl (lt_add_one_of_ne_maxValue h))

theorem range_openCursorAt :
    (p.openCursorAt g x).first = p.first ∧ (p.openCursorAt g x).last = p.last := by
  obtain ⟨cursors, hp⟩ := p.openCursorAt_eq g x
  rw [hp]
  exact ⟨rfl, rfl⟩

theorem first_foldl_restore :
    (cs.foldl (fun p c ↦ p.restoreCursor c.1.group c.2) p).first = p.first := by
  induction cs generalizing p with
  | nil => rfl
  | cons c cs ih => exact ih.trans range_openCursorAt.1

theorem last_restoreCursor : (p.restoreCursor g x).last = p.last.max x := range_openCursorAt.2

theorem last_le_foldl_restore :
    p.last ≤ (cs.foldl (fun p c ↦ p.restoreCursor c.1.group c.2) p).last := by
  induction cs generalizing p with
  | nil => exact Std.le_refl _
  | cons c cs ih =>
      rw [List.foldl_cons]
      refine Std.le_trans ?_ ih
      rw [last_restoreCursor]
      exact Position.le_max_left

/-- No cursor is restored beyond the last position. -/
theorem le_last_foldl_restore (hc : c ∈ cs) :
    c.2 ≤ (cs.foldl (fun p c ↦ p.restoreCursor c.1.group c.2) p).last := by
  induction cs generalizing p with
  | nil => cases hc
  | cons c' cs ih =>
      rw [List.foldl_cons]
      rcases List.mem_cons.mp hc with rfl | hc
      · refine Std.le_trans ?_ last_le_foldl_restore
        rw [last_restoreCursor]
        exact Position.le_max_right
      · exact ih hc

end Partition

/-! ## Operations -/

/-- The partition whose range an operation moves or sets. -/
def Operation.ranges : Operation → Option TopicPartition
  | append tp | roll tp | trim tp _ | setRange tp _ _ => some tp
  | _ => none

/-- The partition at whose end an operation gives out a position. -/
def Operation.grows : Operation → Option TopicPartition
  | append tp | roll tp => some tp
  | _ => none

namespace Bridge

variable {b : Bridge} {op : Operation} {n : Nat} {p : Partition}

/-- What an operation makes of the range of an object that there is already. -/
inductive Shifts (b : Bridge) (n : Nat) (p : Partition) : Operation → Prop
  | sets {tp : TopicPartition} {first last : Position} (on : b.store.object? tp = some n) :
      Shifts b n p (.setRange tp first last)
  | appends {tp : TopicPartition} (on : b.store.object? tp = some n)
      (same : p = (b.store.object n).append) : Shifts b n p (.append tp)
  | rolls {tp : TopicPartition} (on : b.store.object? tp = some n)
      (same : p = (b.store.object n).roll) : Shifts b n p (.roll tp)
  | trims {tp : TopicPartition} {x : Position} (on : b.store.object? tp = some n)
      (same : p = (b.store.object n).trim x) : Shifts b n p (.trim tp x)
  | spares {op : Operation} (elsewhere : op.ranges.bind b.store.object? ≠ some n)
      (first : p.first = (b.store.object n).first) (last : (b.store.object n).last ≤ p.last) :
      Shifts b n p op

theorem Shifts.of_eq (h : op.ranges.bind b.store.object? ≠ some n)
    (hp : p.first = (b.store.object n).first ∧ p.last = (b.store.object n).last) :
    b.Shifts n p op :=
  .spares h hp.1 (hp.2 ▸ Std.le_refl _)

theorem shifts_onPartition {tp : TopicPartition} {f : Partition → Reply Handle × Partition}
    (hf : b.store.object? tp = some n → b.Shifts n (f (b.store.object n)).2 op)
    (hranges : op.ranges = some tp ∨ op.ranges = none) :
    b.Shifts n ((b.onPartition tp f).2.store.object n) op := by
  have helsewhere : b.store.object? tp ≠ some n → op.ranges.bind b.store.object? ≠ some n := by
    intro hne
    rcases hranges with h | h <;> rw [h]
    · exact hne
    · rintro ⟨⟩
  rw [onPartition]
  cases hm : b.store.object? tp with
  | none => exact .of_eq (helsewhere (by rw [hm]; rintro ⟨⟩)) ⟨rfl, rfl⟩
  | some m =>
      change b.Shifts n ((b.store.setObject m (f (b.store.object m)).2).object n) op
      rw [Store.object_setObject]
      split
      · rename_i heq
        exact heq ▸ hf (heq ▸ hm)
      · rename_i hne
        refine .of_eq (helsewhere ?_) ⟨rfl, rfl⟩
        rw [hm]
        exact fun heq ↦ hne (Option.some.inj heq).symm

/-- An operation changes a range as it says, and only the one that it is about. -/
theorem shifts_operate (hn : n < b.store.nextObject) (op : Operation) :
    b.Shifts n ((b.operate op).2.store.object n) op := by
  have hallocate : ∀ p op', op'.ranges = none →
      b.Shifts n ((b.store.allocate p).2.object n) op' := by
    intro p op' hop
    rw [Store.object_allocate, if_neg (Nat.ne_of_lt hn)]
    exact .of_eq (by rw [hop]; rintro ⟨⟩) ⟨rfl, rfl⟩
  have hsame : ∀ op', op'.ranges = none → b.Shifts n (b.store.object n) op' :=
    fun op' hop ↦ .of_eq (by rw [hop]; rintro ⟨⟩) ⟨rfl, rfl⟩
  cases op with
  | setRange tp x y => exact shifts_onPartition (fun on ↦ .sets on) (.inl rfl)
  | append tp => exact shifts_onPartition (fun on ↦ .appends on rfl) (.inl rfl)
  | roll tp => exact shifts_onPartition (fun on ↦ .rolls on rfl) (.inl rfl)
  | trim tp x => exact shifts_onPartition (fun on ↦ .trims on rfl) (.inl rfl)
  | openCursor tp g =>
      refine shifts_onPartition (fun on ↦ ?_) (.inr rfl)
      exact .of_eq (by rintro ⟨⟩) Partition.range_openCursorAt
  | resetCursor tp g x =>
      refine shifts_onPartition (fun on ↦ ?_) (.inr rfl)
      exact .of_eq (by rintro ⟨⟩) Partition.range_openCursorAt
  | createPartition tp =>
      change b.Shifts n ((b.store.createPartition tp).2.object n) (.createPartition tp)
      rw [Store.object_createPartition]
      split
      · rename_i heq
        rw [Store.restored, ← heq, Store.object_ensure_of_lt hn]
        exact .spares (by rintro ⟨⟩) Partition.first_foldl_restore Partition.last_le_foldl_restore
      · rw [Store.object_ensure_of_lt hn]
        exact hsame _ rfl
  | registerDetached p => exact hallocate p _ rfl
  | insertDetached p => exact hallocate p _ rfl
  | refreshDetached p => exact hallocate p _ rfl
  | register tp =>
      simp only [operate]
      split <;> exact hsame _ rfl
  | range | cursor | cursors =>
      simp only [operate, atPartition]
      split <;> exact hsame _ rfl
  | _ => exact hsame _ rfl

end Bridge

/-! ## Uses -/

theorem Store.range_writeCursor (s : Store) (h : Handle) (g : String) (x : Position) (n : Nat) :
    ((s.writeCursor h g x).2.object n).first = (s.object n).first ∧
      ((s.writeCursor h g x).2.object n).last = (s.object n).last := by
  have hset : ∀ p : Partition, p.first = (s.partition h).first ∧ p.last = (s.partition h).last →
      ((s.setObject h.object p).object n).first = (s.object n).first ∧
        ((s.setObject h.object p).object n).last = (s.object n).last := by
    intro p hp
    rw [object_setObject]
    split
    · rename_i heq
      exact heq ▸ hp
    · exact ⟨rfl, rfl⟩
  rw [writeCursor]
  split
  · exact ⟨rfl, rfl⟩
  · split
    · exact hset _ Partition.range_openCursorAt
    · exact hset _ Partition.range_openCursorAt

theorem Store.createPartition_fst_lt {s : Store} {tp : TopicPartition} (h : s.object? tp = none) :
    (s.createPartition tp).1 < (s.createPartition tp).2.nextObject := by
  rw [createPartition_eq]
  change (s.ensure tp).1 < (s.ensure tp).2.nextObject
  rw [ensure, h]
  exact Nat.lt_succ_self _

theorem Store.first_le_last_createPartition {s : Store} {tp : TopicPartition}
    (h : s.object? tp = none) :
    ((s.createPartition tp).2.object (s.createPartition tp).1).first ≤
      ((s.createPartition tp).2.object (s.createPartition tp).1).last := by
  have hnew : (s.ensure tp).2.object (s.ensure tp).1 = .new tp := by
    rw [object_ensure_of_none h, if_pos (ensure_fst_of_none h)]
  have hempty : (Partition.new tp).first = (Partition.new tp).last := rfl
  rw [object_createPartition_self, restored, hnew, Partition.first_foldl_restore, hempty]
  exact Partition.last_le_foldl_restore

namespace Bridge

variable {b : Bridge} {h : Handle} {n : Nat} {o : Offset}

theorem encode_of_minOffset (hh : h.object = n) (ho : b.minOffset (.ok h) = .ok o) :
    (b.store.object n).first.encode = .ok o := by
  subst hh
  simp only [minOffset, Store.firstPosition] at ho
  split at ho
  · cases ho
  · rename_i x heq
    split at heq
    · cases heq
    · cases heq
      exact ho

theorem encode_of_maxOffset (hh : h.object = n) (ho : b.maxOffset (.ok h) = .ok o) :
    (b.store.object n).last.encode = .ok o := by
  subst hh
  simp only [maxOffset, Store.lastPosition] at ho
  split at ho
  · cases ho
  · rename_i x heq
    split at heq
    · cases heq
    · cases heq
      exact ho

end Bridge

namespace World

variable {w w' : World} {u : Use} {us us' : List Use} {n : Nat} {xs : List Position}

/-- Whatever is no operation leaves every range as it is. -/
theorem range_use (hu : ∀ ch op, u ≠ .event ch (.operate op)) :
    ((w.use u).bridge.store.object n).first = (w.bridge.store.object n).first ∧
      ((w.use u).bridge.store.object n).last = (w.bridge.store.object n).last := by
  cases touches_use hu with
  | behaves idle same =>
      rw [same]
      exact ⟨rfl, rfl⟩
  | writes persists same =>
      rw [same]
      exact Store.range_writeCursor ..

/-- The position that a use gives out at the end of an object. -/
def written? (w : World) (n : Nat) : Use → Option Position
  | .event _ (.operate op) =>
    if op.grows.bind w.bridge.store.object? = some n then
      match (w.operate op).1 with
      | .position x => x
      | _ => none
    else none
  | _ => none

/-- The positions that uses give out at the end of an object, the earliest one first. -/
def written (w : World) (n : Nat) : List Use → List Position
  | [] => []
  | u :: us => (w.written? n u).toList ++ (w.use u).written n us

/-- Whether a use sets the range of an object to whatever it likes. -/
def SetsRange (w : World) (n : Nat) : Use → Prop
  | .event _ (.operate (.setRange tp _ _)) => w.bridge.store.object? tp = some n
  | _ => False

/-- Whether a use would count an object on from the largest number. -/
def Overflows (w : World) (n : Nat) : Use → Prop
  | .event _ (.operate (.append tp)) =>
    w.bridge.store.object? tp = some n ∧ (w.bridge.store.object n).last.entry = Int64.maxValue
  | .event _ (.operate (.roll tp)) =>
    w.bridge.store.object? tp = some n ∧ (w.bridge.store.object n).last.segment = Int64.maxValue
  | _ => False

/-- Neither of the two. -/
def Orderly (n : Nat) (w : World) (u : Use) : Prop := ¬ w.SetsRange n u ∧ ¬ w.Overflows n u

theorem written_append : w.written n (us ++ [u]) =
    w.written n us ++ ((w.uses us).written? n u).toList := by
  induction us generalizing w with
  | nil => simp [written]
  | cons u' us ih =>
      rw [List.cons_append, written, written, ih, List.append_assoc, uses_cons]

/-- What a use makes of the range of an object that there is already. -/
theorem shifts_use (hn : n < w.bridge.store.nextObject) (u : Use) :
    (∃ ch op, u = .event ch (.operate op) ∧
      w.bridge.Shifts n ((w.use u).bridge.store.object n) op) ∨
    (w.written? n u = none ∧ ∀ ch op, u ≠ .event ch (.operate op)) := by
  cases u with
  | event ch e =>
      cases e with
      | operate op => exact .inl ⟨ch, op, rfl, Bridge.shifts_operate hn op⟩
      | _ => exact .inr ⟨rfl, by rintro _ _ ⟨⟩⟩
  | _ => exact .inr ⟨rfl, by rintro _ _ ⟨⟩⟩

/-- Either a use gives out nothing and the end stays, or is moved up by a cursor; or it gives out
the new end, which is beyond the old one. -/
theorem last_use (hn : n < w.bridge.store.nextObject) (hu : Orderly n w u) :
    (w.written? n u = none ∧
      (w.bridge.store.object n).last ≤ ((w.use u).bridge.store.object n).last) ∨
    w.written? n u = some ((w.use u).bridge.store.object n).last ∧
      (w.bridge.store.object n).last < ((w.use u).bridge.store.object n).last := by
  rcases shifts_use hn u with ⟨ch, op, rfl, hshifts⟩ | ⟨hnone, hno⟩
  · generalize (w.use (.event ch (.operate op))).bridge.store.object n = p at hshifts
    cases hshifts with
    | sets on => exact absurd on hu.1
    | appends on same =>
        refine .inr ⟨?_, same ▸ Partition.last_lt_append fun hmax ↦ hu.2 ⟨on, hmax⟩⟩
        simp [written?, Operation.grows, operate, Bridge.operate, Bridge.onPartition, on, same]
    | rolls on same =>
        refine .inr ⟨?_, same ▸ Partition.last_lt_roll fun hmax ↦ hu.2 ⟨on, hmax⟩⟩
        simp [written?, Operation.grows, operate, Bridge.operate, Bridge.onPartition, on, same]
    | trims on same => exact .inl ⟨rfl, same ▸ Std.le_refl _⟩
    | spares elsewhere first last =>
        refine .inl ⟨if_neg fun hgrows ↦ elsewhere ?_, last⟩
        cases op <;> first | exact hgrows | cases hgrows
  · exact .inl ⟨hnone, (range_use hno).2 ▸ Std.le_refl _⟩

/-- No use puts the beginning of an object beyond its end. -/
theorem first_le_last_use (hn : n < w.bridge.store.nextObject) (hu : Orderly n w u)
    (h : (w.bridge.store.object n).first ≤ (w.bridge.store.object n).last) :
    ((w.use u).bridge.store.object n).first ≤ ((w.use u).bridge.store.object n).last := by
  have hlast : (w.bridge.store.object n).last ≤ ((w.use u).bridge.store.object n).last :=
    (last_use hn hu).elim (·.2) fun h ↦ Std.le_of_lt h.2
  rcases shifts_use hn u with ⟨ch, op, rfl, hshifts⟩ | ⟨-, hno⟩
  · generalize (w.use (.event ch (.operate op))).bridge.store.object n = p at hshifts hlast
    cases hshifts with
    | sets on => exact absurd on hu.1
    | appends on same | rolls on same => exact Std.le_trans (same ▸ h) hlast
    | trims on same => exact same ▸ Position.min_le_right
    | spares elsewhere first last => exact Std.le_trans (first ▸ h) hlast
  · rw [(range_use hno).1]
    exact Std.le_trans h hlast

/-! ## Runs -/

/-- How an object has grown between two moments, at which `xs` was given out. -/
structure Grown (w : World) (n : Nat) (xs : List Position) (w' : World) : Prop where
  ordered : (w'.bridge.store.object n).first ≤ (w'.bridge.store.object n).last
  tail : (w.bridge.store.object n).last ≤ (w'.bridge.store.object n).last
  ascending : xs.Pairwise (· < ·)
  above : ∀ x ∈ xs, (w.bridge.store.object n).last < x
  below : ∀ x ∈ xs, x ≤ (w'.bridge.store.object n).last

theorem Grown.use (h : w.Grown n xs w') (hn : n < w'.bridge.store.nextObject)
    (hu : Orderly n w' u) : w.Grown n (xs ++ (w'.written? n u).toList) (w'.use u) := by
  have hordered := first_le_last_use hn hu h.ordered
  rcases last_use hn hu with ⟨hnone, hlast⟩ | ⟨hsome, hlast⟩
  · rw [hnone, Option.toList_none, List.append_nil]
    exact ⟨hordered, Std.le_trans h.tail hlast, h.ascending, h.above,
      fun x hx ↦ Std.le_trans (h.below x hx) hlast⟩
  · rw [hsome, Option.toList_some]
    refine ⟨hordered, Std.le_trans h.tail (Std.le_of_lt hlast), ?_, ?_, ?_⟩
    · refine List.pairwise_append.mpr ⟨h.ascending, List.pairwise_singleton .., fun x hx y hy ↦ ?_⟩
      rw [List.mem_singleton.mp hy]
      exact Std.lt_of_le_of_lt (h.below x hx) hlast
    · intro x hx
      rcases List.mem_append.mp hx with hx | hx
      · exact h.above x hx
      · rw [List.mem_singleton.mp hx]
        exact Std.lt_of_le_of_lt h.tail hlast
    · intro x hx
      rcases List.mem_append.mp hx with hx | hx
      · exact Std.le_trans (h.below x hx) (Std.le_of_lt hlast)
      · rw [List.mem_singleton.mp hx]
        exact Std.le_refl _

theorem grown_uses (hn : n < w.bridge.store.nextObject)
    (h : (w.bridge.store.object n).first ≤ (w.bridge.store.object n).last)
    (hus : w.Throughout us (Orderly n)) : w.Grown n (w.written n us) (w.uses us) := by
  induction us using List.reverseRecOn with
  | nil => exact ⟨h, Std.le_refl _, .nil, by rintro _ ⟨⟩, by rintro _ ⟨⟩⟩
  | append_singleton us u ih =>
      rw [written_append, uses_append]
      exact (ih hus.init).use (Nat.lt_of_lt_of_le hn (evolves_uses w us)) hus.last

/-- What uses make of an object that was made for a partition.  It begins at zero then, and ends at
the last one of the cursors that were restored. -/
theorem grown_of_created {tp : TopicPartition} (ch : Choice)
    (hnew : w.bridge.store.object? tp = none) :
    let n := (w.bridge.store.createPartition tp).1
    let start := w.use (.event ch (.operate (.createPartition tp)))
    ∀ before after, start.Throughout (before ++ after) (Orderly n) →
      start.Grown n (start.written n before) (start.uses before) ∧
        (start.uses before).Grown n ((start.uses before).written n after)
          (start.uses (before ++ after)) := by
  intro n start before after hus
  have hn : n < start.bridge.store.nextObject := Store.createPartition_fst_lt hnew
  have hstart : start.Grown n (start.written n before) (start.uses before) :=
    grown_uses hn (Store.first_le_last_createPartition hnew) hus.init
  rw [uses_append]
  exact ⟨hstart, grown_uses (Nat.lt_of_lt_of_le hn (evolves_uses start before)) hstart.ordered
    hus.rest⟩

/-- **Range and append order.**  However a partition that was created is appended to, closed and
trimmed, as long as its range is not set and its numbers do not run out: it never begins beyond its
end, every position that is given out comes after those that were given out before and after every
cursor that was restored, their offsets are in the same order and stand for them, and no earliest
offset is beyond a last offset that is asked for then or later. -/
theorem appends_ascend (w : World) (tp : TopicPartition) (ch : Choice) (us : List Use)
    (hnew : w.bridge.store.object? tp = none) :
    let n := (w.bridge.store.createPartition tp).1
    let start := w.use (.event ch (.operate (.createPartition tp)))
    let v := start.uses us
    start.Throughout us (Orderly n) →
    (v.bridge.store.object n).first ≤ (v.bridge.store.object n).last ∧
    (start.written n us).Pairwise (· < ·) ∧
    (∀ x ∈ start.written n us,
      (start.bridge.store.object n).last < x ∧ x ≤ (v.bridge.store.object n).last) ∧
    ((start.written n us).filterMap (·.encode.toOption)).Pairwise (· < ·) ∧
    (∀ x ∈ start.written n us, ∀ o, x.encode = .ok o → Position.decode o = .ok x) ∧
    ∀ before after, us = before ++ after → ∀ h h' : Handle, h.object = n → h'.object = n →
      ∀ o o', (start.uses before).bridge.minOffset (.ok h) = .ok o →
        v.bridge.maxOffset (.ok h') = .ok o' → o ≤ o' := by
  intro n start v hus
  have hgrown : start.Grown n (start.written n us) v :=
    (grown_of_created ch hnew us [] ((List.append_nil us).symm ▸ hus)).1
  refine ⟨hgrown.ordered, hgrown.ascending, fun x hx ↦ ⟨hgrown.above x hx, hgrown.below x hx⟩,
    ?_, fun x _ o ho ↦ Position.decode_of_encode ho, ?_⟩
  · refine hgrown.ascending.filterMap _ fun x y hxy o ho o' ho' ↦ ?_
    exact (Position.offset_lt_iff (Position.encode_toOption.mp ho)
      (Position.encode_toOption.mp ho')).mpr hxy
  · rintro before after rfl h h' hh hh' o o' ho ho'
    obtain ⟨hbefore, hafter⟩ := grown_of_created ch hnew before after hus
    exact Position.offset_le_of_le (Bridge.encode_of_minOffset hh ho)
      (Bridge.encode_of_maxOffset hh' ho') (Std.le_trans hbefore.ordered hafter.tail)

/-- A world in which cursors were loaded, and no partition was created yet. -/
def loaded (points : CursorPoints) : World :=
  new 0 (.new ⟨[], ⟨1, 1, 10, 3⟩, 100⟩ (.new "node" points) none)

/-- An operation on the first partition of a topic. -/
abbrev Use.onFirst (op : TopicPartition → Operation) : Use := .event .plain (.operate (op ⟨"t", 0⟩))

/-- A cursor on that partition. -/
def restoredCursor : CursorPoints := (∅ : CursorPoints).insert ⟨"g", "t", 0⟩ ⟨2, 5⟩

/-- Records and segments, and between them trims beyond the end and before the beginning. -/
def trimmedAbout : List Use :=
  [.onFirst .append, .onFirst (.trim · ⟨9, 9⟩), .onFirst .roll, .onFirst (.trim · ⟨-1, 0⟩),
    .onFirst .append, .onFirst (.trim · ⟨2, 6⟩)]

theorem appends_after_restored_cursor :
    let start := (loaded restoredCursor).use (.onFirst .createPartition)
    let v := start.uses trimmedAbout
    (loaded restoredCursor).bridge.store.object? ⟨"t", 0⟩ = none ∧
      start.Throughout trimmedAbout (Orderly 0) ∧
      start.written 0 trimmedAbout = [⟨2, 6⟩, ⟨3, 0⟩, ⟨3, 1⟩] ∧
      (start.written 0 trimmedAbout).Pairwise (· < ·) ∧
      v.bridge.minOffset (.ok ⟨0, none⟩) = .ok 536870918 ∧
      v.bridge.maxOffset (.ok ⟨0, none⟩) = .ok 805306369 ∧
      (536870918 : Offset) ≤ 805306369 := by
  intro start v
  have horderly : start.Throughout trimmedAbout (Orderly 0) := by
    simp only [trimmedAbout, throughout_cons]
    refine ⟨⟨id, ?_⟩, ⟨id, id⟩, ⟨id, ?_⟩, ⟨id, id⟩, ⟨id, ?_⟩, ⟨id, id⟩, throughout_nil⟩
    all_goals
      rintro ⟨-, hmax⟩
      exact absurd hmax (by decide +kernel)
  have hmin : v.bridge.minOffset (.ok ⟨0, none⟩) = .ok 536870918 := by decide +kernel
  have hmax : v.bridge.maxOffset (.ok ⟨0, none⟩) = .ok 805306369 := by decide +kernel
  have hobject : ((loaded restoredCursor).bridge.store.createPartition ⟨"t", 0⟩).1 = 0 := rfl
  have happends := appends_ascend (loaded restoredCursor) ⟨"t", 0⟩ .plain trimmedAbout rfl
  rw [hobject] at happends
  obtain ⟨-, hascending, -, -, -, hle⟩ := happends horderly
  exact ⟨rfl, horderly, by decide +kernel, hascending, hmin, hmax,
    hle trimmedAbout [] (List.append_nil _).symm ⟨0, none⟩ ⟨0, none⟩ rfl rfl _ _ hmin hmax⟩

end World

end GroupOffsets
