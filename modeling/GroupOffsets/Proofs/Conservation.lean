import GroupOffsets.Proofs.Range

/-!
# No cursor is lost

A cursor that was loaded waits in the store until its partition is created, and goes over to the
partition then.  A flush writes both kinds.  So what it writes can be told from what was loaded and
from what was done since, without a look at where the cursors are: `World.book` keeps that record,
and the store agrees with it at every moment.
-/

namespace GroupOffsets

open World (Choice Event Task)

/-! ## Stores -/

namespace Store

variable {s : Store} {tp tp' : TopicPartition} {g g' : String} {n : Nat} {p : Partition}
variable {x : Position} {points points' : CursorPoints}

theorem points_ext (h : ∀ g tp, points[(⟨g, tp⟩ : CursorKey)]? = points'[(⟨g, tp⟩ : CursorKey)]?) :
    points = points' := Std.ExtTreeMap.ext_getElem? fun ⟨g, tp⟩ ↦ h g tp

theorem getElem?_insert_points : (points.insert ⟨g, tp⟩ x)[(⟨g', tp'⟩ : CursorKey)]? =
    if tp' = tp ∧ g' = g then some x else points[(⟨g', tp'⟩ : CursorKey)]? := by
  have hkey : (⟨g, tp⟩ : CursorKey) = ⟨g', tp'⟩ ↔ tp' = tp ∧ g' = g := by
    rw [CursorKey.mk.injEq, and_comm, eq_comm, @eq_comm _ g]
  simp only [Std.ExtTreeMap.getElem?_insert, Std.LawfulEqCmp.compare_eq_iff_eq, hkey]

theorem getElem?_insertIfNew_points : (points.insertIfNew ⟨g, tp⟩ x)[(⟨g', tp'⟩ : CursorKey)]? =
    if tp' = tp ∧ g' = g then some ((points[(⟨g, tp⟩ : CursorKey)]?).getD x)
      else points[(⟨g', tp'⟩ : CursorKey)]? := by
  have hkey : (⟨g, tp⟩ : CursorKey) = ⟨g', tp'⟩ ↔ tp' = tp ∧ g' = g := by
    rw [CursorKey.mk.injEq, and_comm, eq_comm, @eq_comm _ g]
  simp only [Std.ExtTreeMap.getElem?_insertIfNew, Std.LawfulEqCmp.compare_eq_iff_eq, hkey,
    Std.ExtTreeMap.mem_iff_isSome_getElem?]
  by_cases h : tp' = tp ∧ g' = g
  · obtain ⟨rfl, rfl⟩ := h
    cases points[(⟨g', tp'⟩ : CursorKey)]? <;> simp
  · simp [h]

/-- No loaded cursor waits for a partition that exists. -/
structure Settled (s : Store) : Prop where
  tidy : s.Tidy
  arrived : ∀ {tp n}, s.object? tp = some n → ∀ g, s.pending[(⟨g, tp⟩ : CursorKey)]? = none

theorem settled_new (owner : String) (points : CursorPoints) : (new owner points).Settled :=
  ⟨tidy_new owner points, by simp [new, object?]⟩

theorem points_new (owner : String) : (new owner points).points = points := by
  refine points_ext fun g tp ↦ ?_
  rw [getElem?_points]
  simp [cursorOf, object?, new]

/-- A cursor does not wait for its partition and stand on it at once. -/
theorem Settled.cursorOf_eq_none (h : s.Settled) (hx : (⟨g, tp⟩ : CursorKey) ∈ s.pending) :
    s.cursorOf tp g = none := by
  cases hn : s.object? tp with
  | none => rw [cursorOf, hn, Option.bind_none]
  | some n =>
      rw [Std.ExtTreeMap.mem_iff_isSome_getElem?, h.arrived hn g] at hx
      cases hx

theorem getElem?_points_of_object? (h : s.Settled) (hn : s.object? tp = some n) (g : String) :
    s.points[(⟨g, tp⟩ : CursorKey)]? = (s.object n).cursor? g := by
  rw [getElem?_points, h.arrived hn g, Option.or_none, cursorOf, hn, Option.bind_some]

theorem getElem?_points_setObject (h : s.Settled) (hn : s.object? tp = some n) (p : Partition)
    (g' : String) (tp' : TopicPartition) : (s.setObject n p).points[(⟨g', tp'⟩ : CursorKey)]? =
      if tp' = tp then p.cursor? g' else s.points[(⟨g', tp'⟩ : CursorKey)]? := by
  have hpending : (s.setObject n p).pending = s.pending := rfl
  rw [getElem?_points, getElem?_points, cursorOf_setObject h.tidy hn, hpending]
  split
  · rename_i htp
    rw [htp, h.arrived hn g', Option.or_none]
  · rfl

theorem points_setObject (h : s.Settled) (hn : s.object? tp = some n)
    (hp : p.cursors = (s.object n).cursors) : (s.setObject n p).points = s.points := by
  refine points_ext fun g' tp' ↦ ?_
  rw [getElem?_points_setObject h hn]
  split
  · rename_i htp
    rw [htp, getElem?_points_of_object? h hn, Partition.cursor?, Partition.cursor?, hp]
  · rfl

/-- An object that no partition has shows nowhere. -/
theorem points_setObject_of_unserved (hn : ∀ tp, s.object? tp ≠ some n) (p : Partition) :
    (s.setObject n p).points = s.points := by
  refine points_ext fun g tp ↦ ?_
  have hcursor : (s.setObject n p).cursorOf tp g = s.cursorOf tp g := by
    rw [cursorOf, cursorOf, object?_setObject]
    cases hm : s.object? tp with
    | none => rfl
    | some m =>
        have hne : m ≠ n := fun heq ↦ hn tp (heq ▸ hm)
        rw [Option.bind_some, Option.bind_some, object_setObject, if_neg hne]
  rw [getElem?_points, getElem?_points, hcursor]
  rfl

theorem points_openCursor (h : s.Settled) (hn : s.object? tp = some n) (g : String) :
    (s.setObject n ((s.object n).openCursor g)).points =
      s.points.insertIfNew ⟨g, tp⟩ (s.object n).last := by
  refine points_ext fun g' tp' ↦ ?_
  rw [getElem?_points_setObject h hn, getElem?_insertIfNew_points, Partition.openCursor,
    Partition.cursor?_openCursorAt, getElem?_points_of_object? h hn]
  by_cases htp : tp' = tp
  · subst htp
    rw [getElem?_points_of_object? h hn]
    by_cases hg : g = g'
    · subst hg
      cases (s.object n).cursor? g <;> simp
    · simp [hg, Ne.symm hg]
  · simp [htp]

theorem points_resetCursor (h : s.Settled) (hn : s.object? tp = some n) (g : String)
    (x : Position) : (s.setObject n (((s.object n).openCursor g).resetCursor g x)).points =
      s.points.insert ⟨g, tp⟩ x := by
  refine points_ext fun g' tp' ↦ ?_
  rw [getElem?_points_setObject h hn, getElem?_insert_points, cursor?_resetCursor, ite_and]
  split
  · rename_i htp
    rw [htp, getElem?_points_of_object? h hn]
  · rfl

/-- To create a partition brings no cursor, and loses none. -/
theorem points_createPartition (h : s.Tidy) (tp : TopicPartition) :
    (s.createPartition tp).2.points = s.points := by
  refine points_ext fun g tp' ↦ ?_
  rw [getElem?_points, getElem?_points, cursorOf_createPartition h, pending_createPartition]
  by_cases htp : tp' = tp
  · simp [htp]
  · simp [htp]

/-- A new partition ends where the last one of its cursors stands, or beyond. -/
theorem le_last_createPartition (hx : s.pending[(⟨g, tp⟩ : CursorKey)]? = some x) :
    x ≤ ((s.createPartition tp).2.object (s.createPartition tp).1).last := by
  have hwaits : ((⟨g, tp⟩ : CursorKey), x) ∈ s.pendingOn tp :=
    List.mem_filter.mpr ⟨Std.ExtTreeMap.mem_toList_iff_getElem?_eq_some.mpr hx, beq_self_eq_true tp⟩
  have hle := Partition.le_last_foldl_restore (p := (s.ensure tp).2.object (s.ensure tp).1) hwaits
  rwa [object_createPartition_self, restored]

theorem points_deletePartition (h : s.Settled) (tp : TopicPartition) :
    (s.deletePartition tp).2.points =
      if (s.object? tp).isSome then s.points.filter fun k _ ↦ k.on != tp else s.points := by
  have hcursor : ∀ g tp', (s.deletePartition tp).2.cursorOf tp' g =
      if tp' = tp then none else s.cursorOf tp' g := by
    intro g tp'
    rw [cursorOf, object?_deletePartition]
    split <;> rfl
  have hpending : (s.deletePartition tp).2.pending = s.pending := rfl
  refine points_ext fun g tp' ↦ ?_
  rw [getElem?_points, hcursor, hpending]
  cases hn : s.object? tp with
  | none =>
      have hnone : s.cursorOf tp g = none := by rw [cursorOf, hn, Option.bind_none]
      by_cases htp : tp' = tp
      · simp [htp, getElem?_points, hnone]
      · simp [htp, getElem?_points]
  | some n =>
      rw [Option.isSome_some, if_pos rfl, Std.ExtTreeMap.getElem?_filter', getElem?_points]
      by_cases htp : tp' = tp
      · simp [htp, h.arrived hn g]
      · rw [if_neg htp]
        symm
        cases (s.cursorOf tp' g).or s.pending[(⟨g, tp'⟩ : CursorKey)]? <;> simp [htp]

theorem points_allocate (h : s.Tidy) (p : Partition) : (s.allocate p).2.points = s.points := by
  refine points_ext fun g tp ↦ ?_
  rw [getElem?_points, getElem?_points, cursorOf_allocate h]
  rfl

/-! ### The book -/

/-- What an operation makes of a record of the durable cursors: a new cursor begins at the tail, a
cursor that is reset moves, and those of a deleted partition are gone. -/
def book (s : Store) (points : CursorPoints) : Operation → CursorPoints
  | .openCursor tp g =>
    match s.object? tp with
    | some n => points.insertIfNew ⟨g, tp⟩ (s.object n).last
    | none => points
  | .resetCursor tp g x => if (s.object? tp).isSome then points.insert ⟨g, tp⟩ x else points
  | .deletePartition tp =>
    if (s.object? tp).isSome then points.filter fun k _ ↦ k.on != tp else points
  | _ => points

/-- What a persist pass makes of such a record when it writes a cursor through a handle.  The handle
may be on an object that no partition has any more, and it may fail. -/
def bookWrite (s : Store) (points : CursorPoints) (h : Handle) (g : String) (x : Position) :
    CursorPoints :=
  let tp := (s.partition h).name
  if s.object? tp ≠ some h.object ∨ failsBy h .openCursor then points
  else if failsBy h .resetCursor then points.insertIfNew ⟨g, tp⟩ (s.partition h).last
  else points.insert ⟨g, tp⟩ x

/-- An operation on another cursor, or on another partition, leaves a cursor in the book alone. -/
theorem getElem?_book {op : Operation} (hx : points[(⟨g, tp⟩ : CursorKey)]? = some x)
    (hreset : ∀ x', op ≠ .resetCursor tp g x') (hdelete : op ≠ .deletePartition tp) :
    (s.book points op)[(⟨g, tp⟩ : CursorKey)]? = some x := by
  cases op with
  | openCursor tp' g' =>
      simp only [book]
      split
      · rw [getElem?_insertIfNew_points]
        split
        · rename_i hkey
          obtain ⟨rfl, rfl⟩ := hkey
          rw [hx, Option.getD_some]
        · exact hx
      · exact hx
  | resetCursor tp' g' x' =>
      simp only [book]
      split
      · rw [getElem?_insert_points, if_neg, hx]
        rintro ⟨rfl, rfl⟩
        exact hreset x' rfl
      · exact hx
  | deletePartition tp' =>
      simp only [book]
      split
      · have hne : tp ≠ tp' := fun heq ↦ hdelete (heq ▸ rfl)
        rw [Std.ExtTreeMap.getElem?_filter', hx]
        simp [hne]
      · exact hx
  | _ => exact hx

theorem getElem?_bookWrite {h : Handle} {y : Position}
    (hx : points[(⟨g, tp⟩ : CursorKey)]? = some x)
    (hother : ¬(tp = (s.partition h).name ∧ g = g')) :
    (s.bookWrite points h g' y)[(⟨g, tp⟩ : CursorKey)]? = some x := by
  rw [bookWrite]
  split
  · exact hx
  · split
    · rw [getElem?_insertIfNew_points, if_neg hother, hx]
    · rw [getElem?_insert_points, if_neg hother, hx]

theorem points_writeCursor (h : s.Settled) (hd : Handle) (g : String) (x : Position) :
    (s.writeCursor hd g x).2.points = s.bookWrite s.points hd g x := by
  rw [bookWrite]
  by_cases hserved : s.object? (s.partition hd).name = some hd.object
  · rw [writeCursor]
    by_cases hopen : failsBy hd .openCursor
    · rw [if_pos hopen, if_pos (.inr hopen)]
    · rw [if_neg hopen, if_neg (not_or.mpr ⟨not_not.mpr hserved, hopen⟩)]
      by_cases hreset : failsBy hd .resetCursor
      · rw [if_pos hreset, if_pos hreset]
        exact points_openCursor h hserved g
      · rw [if_neg hreset, if_neg hreset]
        exact points_resetCursor h hserved g x
  · rw [if_pos (.inl hserved)]
    obtain hs | ⟨p, hs, -⟩ := s.writeCursor_cases hd g x
    · rw [hs]
    · rw [hs]
      refine points_setObject_of_unserved (fun tp hn ↦ hserved ?_) p
      have hname : (s.partition hd).name = tp := h.tidy.named hn
      rw [hname, hn]

end Store

namespace Bridge

variable {b : Bridge} {op : Operation}

theorem points_onPartition (h : b.store.Settled) {f : Partition → Reply Handle × Partition}
    (hf : ∀ p, (f p).2.cursors = p.cursors) (tp : TopicPartition) :
    (b.onPartition tp f).2.store.points = b.store.points := by
  rw [onPartition]
  cases hn : b.store.object? tp with
  | none => rfl
  | some n => exact Store.points_setObject h hn (hf _)

/-- An operation does to the cursors what it does to the book. -/
theorem points_operate (h : b.store.Settled) (op : Operation) :
    (b.operate op).2.store.points = b.store.book b.store.points op := by
  cases op with
  | register tp =>
      simp only [operate]
      split <;> rfl
  | registerDetached p => exact Store.points_allocate h.tidy p
  | insertDetached p => exact Store.points_allocate h.tidy p
  | refreshDetached p => exact Store.points_allocate h.tidy p
  | createPartition tp => exact Store.points_createPartition h.tidy tp
  | deletePartition tp => exact Store.points_deletePartition h tp
  | setRange | append | roll | trim => exact points_onPartition h (fun _ ↦ rfl) _
  | openCursor tp g =>
      simp only [operate, onPartition, Store.book]
      cases hn : b.store.object? tp with
      | none => rfl
      | some n => exact Store.points_openCursor h hn g
  | resetCursor tp g x =>
      simp only [operate, onPartition, Store.book]
      cases hn : b.store.object? tp with
      | none => rfl
      | some n => exact Store.points_resetCursor h hn g x
  | range | cursor | cursors =>
      simp only [operate, atPartition]
      split <;> rfl
  | _ => rfl

theorem pending_operate (b : Bridge) (op : Operation) :
    (∃ tp, op = .createPartition tp) ∨ (b.operate op).2.store.pending = b.store.pending := by
  cases op with
  | createPartition tp => exact .inl ⟨tp, rfl⟩
  | register tp =>
      simp only [operate]
      split <;> exact .inr rfl
  | setRange | append | roll | trim | openCursor | resetCursor =>
      simp only [operate, onPartition]
      split <;> exact .inr rfl
  | range | cursor | cursors =>
      simp only [operate, atPartition]
      split <;> exact .inr rfl
  | _ => exact .inr rfl

theorem settled_operate (h : b.store.Settled) (op : Operation) :
    (b.operate op).2.store.Settled := by
  refine ⟨(b.evolves_operate op).tidy h.tidy, fun {tp n} hn g ↦ ?_⟩
  rcases object?_operate_cases hn with hold | ⟨rfl, -, -⟩
  · rcases b.pending_operate op with ⟨tp', rfl⟩ | hpending
    · change (b.store.createPartition tp').2.pending[_]? = none
      rw [Store.pending_createPartition, h.arrived hold, ite_self]
    · rw [hpending, h.arrived hold]
  · exact (Store.pending_createPartition _).trans (if_pos rfl)

end Bridge

/-! ## Runs -/

namespace World

variable {w : World} {u : Use} {us us' : List Use} {points : CursorPoints} {k : CursorKey}
variable {x : Position}

/-- What a use makes of a record of the durable cursors. -/
def book (w : World) (points : CursorPoints) : Use → CursorPoints
  | .event _ (.operate op) => w.bridge.store.book points op
  | u =>
    match w.persists? u with
    | some (h, g, x) => w.bridge.store.bookWrite points h g x
    | none => points

/-- What several uses make of it. -/
def bookAll (w : World) (points : CursorPoints) : List Use → CursorPoints
  | [] => points
  | u :: us => (w.use u).bookAll (w.book points u) us

theorem book_of_no_operation (hu : ∀ ch op, u ≠ .event ch (.operate op)) :
    w.book points u = match w.persists? u with
      | some (h, g, x) => w.bridge.store.bookWrite points h g x
      | none => points := by
  rw [book]
  exact hu

theorem settled_use (h : w.bridge.store.Settled) (u : Use) : (w.use u).bridge.store.Settled := by
  by_cases hu : ∃ ch op, u = .event ch (.operate op)
  · obtain ⟨ch, op, rfl⟩ := hu
    exact Bridge.settled_operate h op
  · have htouches : w.Touches u (w.use u).bridge.store :=
      touches_use fun ch op heq ↦ hu ⟨ch, op, heq⟩
    refine ⟨(evolves_use w u).tidy h.tidy, fun {tp n} hn g ↦ ?_⟩
    rw [htouches.object?] at hn
    rw [htouches.pending, h.arrived hn]

/-- A flush before and after a use differs by what the use does to the book. -/
theorem points_use (h : w.bridge.store.Settled) (u : Use) :
    (w.use u).bridge.store.points = w.book w.bridge.store.points u := by
  by_cases hu : ∃ ch op, u = .event ch (.operate op)
  · obtain ⟨ch, op, rfl⟩ := hu
    exact Bridge.points_operate h op
  · have hno : ∀ ch op, u ≠ .event ch (.operate op) := fun ch op heq ↦ hu ⟨ch, op, heq⟩
    rw [book_of_no_operation hno]
    cases touches_use hno with
    | behaves idle same =>
        rw [same, idle]
        rfl
    | writes persists same =>
        rw [same, persists]
        exact Store.points_writeCursor h ..

theorem points_uses (h : w.bridge.store.Settled) (us : List Use) :
    (w.uses us).bridge.store.points = w.bookAll w.bridge.store.points us := by
  induction us generalizing w with
  | nil => rfl
  | cons u us ih => rw [uses_cons, ih (settled_use h u), points_use h, bookAll]

/-- Whether a use may move a cursor that there is: it resets the cursor or deletes its partition, or
a persist pass writes the cursor. -/
inductive Moves (k : CursorKey) (w : World) : Use → Prop
  | resets {ch : Choice} {x : Position} :
      Moves k w (.event ch (.operate (.resetCursor k.on k.group x)))
  | deletes {ch : Choice} : Moves k w (.event ch (.operate (.deletePartition k.on)))
  | persists {u : Use} {h : Handle} {x : Position}
      (writes : w.persists? u = some (h, k.group, x))
      (on : (w.bridge.store.partition h).name = k.on) : Moves k w u

theorem not_moves_operate {ch : Choice} {op : Operation}
    (hreset : ∀ x, op ≠ .resetCursor k.on k.group x) (hdelete : op ≠ .deletePartition k.on) :
    ¬ Moves k w (.event ch (.operate op)) := by
  intro h
  generalize hu : Use.event ch (.operate op) = u at h
  cases h with
  | resets =>
      cases hu
      exact hreset _ rfl
  | deletes =>
      cases hu
      exact hdelete rfl
  | persists writes =>
      subst hu
      cases writes

/-- In the book a cursor stays where it is, unless it is moved. -/
theorem getElem?_book_of_not_moves (hx : points[k]? = some x) (hu : ¬ Moves k w u) :
    (w.book points u)[k]? = some x := by
  obtain ⟨g, tp⟩ := k
  by_cases hop : ∃ ch op, u = .event ch (.operate op)
  · obtain ⟨ch, op, rfl⟩ := hop
    refine Store.getElem?_book hx ?_ ?_
    · rintro x' rfl
      exact hu .resets
    · rintro rfl
      exact hu .deletes
  · rw [book_of_no_operation fun ch op heq ↦ hop ⟨ch, op, heq⟩]
    cases hpersists : w.persists? u with
    | none => exact hx
    | some write =>
        refine Store.getElem?_bookWrite hx ?_
        rintro ⟨hname, rfl⟩
        exact hu (.persists hpersists hname.symm)

theorem getElem?_bookAll_of_not_moves (hx : points[k]? = some x)
    (hus : w.Throughout us fun w u ↦ ¬ Moves k w u) : (w.bookAll points us)[k]? = some x := by
  induction us generalizing w points with
  | nil => exact hx
  | cons u us ih =>
      obtain ⟨hu, hus⟩ := throughout_cons.mp hus
      exact ih (getElem?_book_of_not_moves hx hu) hus

/-- **No cursor is lost.**  Whatever is done to a bridge, a flush writes the cursors that were
loaded, changed by what was done since: new cursors begin at the tail and only where there is none
yet, and only what is reset, written by a persist pass or deleted with its partition changes.  A
loaded cursor that nobody moves is where it was, whether its partition has been created or not.  No
cursor waits for its partition and stands on it at once; when the partition is created the waiting
ones go over to it, and none of them is beyond its last position. -/
theorem no_cursor_is_lost (now : Nat) (settings : Bridge.Settings) (owner : String)
    (points : CursorPoints) (manualClock : Option Nat) (us : List Use) :
    let start := new now (.new settings (.new owner points) manualClock)
    let s := (start.uses us).bridge.store
    s.points = start.bookAll points us ∧
    (∀ k x, points[k]? = some x → start.Throughout us (fun w u ↦ ¬ Moves k w u) →
      s.points[k]? = some x) ∧
    (∀ g tp, (⟨g, tp⟩ : CursorKey) ∈ s.pending → s.cursorOf tp g = none) ∧
    ∀ g tp x, s.pending[(⟨g, tp⟩ : CursorKey)]? = some x →
      (s.createPartition tp).2.cursorOf tp g = some x ∧
        x ≤ ((s.createPartition tp).2.object (s.createPartition tp).1).last := by
  intro start s
  have hstart : start.bridge.store.Settled := Store.settled_new owner points
  have hsettled : s.Settled :=
    uses_of_use (·.bridge.store.Settled) (fun _ u h ↦ settled_use h u) hstart us
  have hbook : s.points = start.bookAll points us := by
    have hpoints : start.bridge.store.points = points := Store.points_new owner
    rw [← hpoints]
    exact points_uses hstart us
  refine ⟨hbook, fun k x hx hus ↦ ?_, fun g tp ↦ hsettled.cursorOf_eq_none, fun g tp x hx ↦
    ⟨?_, Store.le_last_createPartition hx⟩⟩
  · rw [hbook]
    exact getElem?_bookAll_of_not_moves hx hus
  · have hwaits : (⟨g, tp⟩ : CursorKey) ∈ s.pending := by
      rw [Std.ExtTreeMap.mem_iff_isSome_getElem?, hx, Option.isSome_some]
    rw [Store.cursorOf_createPartition hsettled.tidy, hsettled.cursorOf_eq_none hwaits, if_pos rfl,
      hx, Option.none_or]

/-- Loaded cursors on two partitions. -/
def loadedOnTwo : CursorPoints :=
  ((∅ : CursorPoints).insert ⟨"g", "t", 0⟩ ⟨2, 5⟩).insert ⟨"h", "t", 1⟩ ⟨1, 0⟩

/-- One of the two partitions is created, even twice; another group reads from it, and it is
trimmed. -/
def oneCreated : List Use :=
  [.onFirst .createPartition, .onFirst .append, .onFirst (.openCursor · "new"),
    .onFirst (.openCursor · "g"), .onFirst .createPartition,
    .onFirst (.resetCursor · "new" ⟨0, 1⟩), .onFirst (.trim · ⟨2, 6⟩)]

theorem loaded_cursors_stay :
    let s := ((loaded loadedOnTwo).uses oneCreated).bridge.store
    s.points = (loaded loadedOnTwo).bookAll loadedOnTwo oneCreated ∧
      s.points[(⟨"new", "t", 0⟩ : CursorKey)]? = some ⟨0, 1⟩ ∧
      s.points[(⟨"g", "t", 0⟩ : CursorKey)]? = some ⟨2, 5⟩ ∧
      s.points[(⟨"h", "t", 1⟩ : CursorKey)]? = some ⟨1, 0⟩ ∧
      s.cursorOf ⟨"t", 1⟩ "h" = none ∧
      (s.createPartition ⟨"t", 1⟩).2.cursorOf ⟨"t", 1⟩ "h" = some ⟨1, 0⟩ := by
  intro s
  obtain ⟨hbook, hstays, hwaits, hcreate⟩ := no_cursor_is_lost 0 ⟨[], ⟨1, 1, 10, 3⟩, 100⟩ "node"
    loadedOnTwo none oneCreated
  have hunmoved : ∀ k : CursorKey, k.group ≠ "new" →
      (loaded loadedOnTwo).Throughout oneCreated fun w u ↦ ¬ Moves k w u := by
    intro k hk
    simp only [oneCreated, throughout_cons]
    refine ⟨?_, ?_, ?_, ?_, ?_, ?_, ?_, throughout_nil⟩
    all_goals refine not_moves_operate (fun x heq ↦ ?_) (by rintro ⟨⟩)
    case refine_6 => exact hk (Operation.resetCursor.inj heq).2.1.symm
    all_goals cases heq
  have hpending : s.pending[(⟨"h", "t", 1⟩ : CursorKey)]? = some ⟨1, 0⟩ := by decide +kernel
  exact ⟨hbook, by decide +kernel, hstays _ _ (by decide +kernel) (hunmoved _ (by decide)),
    hstays _ _ (by decide +kernel) (hunmoved _ (by decide)),
    hwaits _ _ (Std.ExtTreeMap.mem_iff_isSome_getElem?.mpr (hpending ▸ rfl)),
    (hcreate _ _ _ hpending).1⟩

end World

end GroupOffsets
