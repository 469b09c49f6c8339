import GroupOffsets.Standalone
import GroupOffsets.Proofs.Checkpoint
import GroupOffsets.Proofs.Store

/-!
# Checkpoint files

A file that was written is found where it was put, with what was written to it and nothing of what
it held before.  So the cursors of a checkpoint come back from its file, except for those that no
line can hold.  Of the cursors that were themselves read from a file, these are the ones on a topic
without a name: a reader takes such a line, but a writer leaves it out.
-/

namespace GroupOffsets

/-! ## Files that are written -/

namespace Files

variable {f f' : Files} {p q : Place} {name : String} {names : List String} {path : String}
  {content : List UInt8}

/-- Where a name leads to from a directory. -/
def follow (q : Place) (name : String) : Option Place :=
  if name = ".." then some q.up
  else if !isName name then some q
  else if longestName < name.utf8ByteSize then none
  else some (q.child name)

theorem walk_cons : f.walk q (name :: names) =
    if f.isDirectoryAt q then (follow q name).bind (f.walk · names) else none := by
  rw [walk, follow]
  cases f.isDirectoryAt q <;> simp only [Bool.not_true, Bool.not_false, Bool.false_eq_true, if_true,
    if_false]
  split
  · rfl
  · split
    · rfl
    · split <;> rfl

/-- More directories make no path lead elsewhere. -/
theorem walk_mono (h : ∀ q, f.isDirectoryAt q = true → f'.isDirectoryAt q = true)
    (hwalk : f.walk q names = some p) : f'.walk q names = some p := by
  induction names generalizing q with
  | nil => exact hwalk
  | cons name names ih =>
      rw [walk_cons] at hwalk ⊢
      split at hwalk
      · rename_i hdirectory
        obtain ⟨q', hfollow, hrest⟩ := Option.bind_eq_some_iff.mp hwalk
        rw [if_pos (h q hdirectory), hfollow]
        exact ih hrest
      · cases hwalk

theorem place?_mono (h : ∀ q, f.isDirectoryAt q = true → f'.isDirectoryAt q = true)
    (hplace : f.place? path = some p) : f'.place? path = some p := by
  rw [place?] at hplace ⊢
  split at hplace
  · cases hplace
  · rw [if_neg ‹_›]
    split at hplace
    · exact walk_mono h hplace
    · exact walk_mono h hplace

theorem write_eq_some (h : f.write path content = some f') : ∃ p, f.place? path = some p ∧
    f.isDirectoryAt p = false ∧
      f' = { f with contents := (p, content) :: f.contents.filter (·.1 != p) } := by
  obtain ⟨p, hplace, h⟩ := Option.bind_eq_some_iff.mp h
  split at h
  · cases h
  · rename_i hfile
    cases h
    exact ⟨p, hplace, Bool.eq_false_iff.mpr hfile, rfl⟩

theorem isDirectoryAt_iff : f.isDirectoryAt q = true ↔ q.names = [] ∨
    (∃ d ∈ f.directories, d.isWithin q = true) ∨
      ∃ e ∈ f.contents, e.1.isWithin q = true ∧ e.1 ≠ q := by
  simp [isDirectoryAt, or_assoc]

/-- The directories in front of a file are there before it is written. -/
theorem isDirectoryAt_of_write (h : f.write path content = some f')
    (hq : f.isDirectoryAt q = true) : f'.isDirectoryAt q = true := by
  obtain ⟨p, -, -, rfl⟩ := write_eq_some h
  rw [isDirectoryAt_iff] at hq ⊢
  refine hq.imp_right (Or.imp_right ?_)
  rintro ⟨e, he, hwithin, hne⟩
  by_cases hp : e.1 = p
  · exact ⟨(p, content), List.mem_cons_self .., hp ▸ hwithin, hp ▸ hne⟩
  · exact ⟨e, List.mem_cons_of_mem _ (by simpa [hp] using he), hwithin, hne⟩

/-- A file that is written does not become a directory. -/
theorem isDirectoryAt_eq_false_of_write
    (hq : f.isDirectoryAt q = false) : Files.isDirectoryAt
      { f with contents := (q, content) :: f.contents.filter (·.1 != q) } q = false := by
  refine Bool.eq_false_iff.mpr fun h ↦ Bool.eq_false_iff.mp hq ?_
  rw [isDirectoryAt_iff] at h ⊢
  refine h.imp_right (Or.imp_right ?_)
  rintro ⟨e, he, hwithin, hne⟩
  rcases List.mem_cons.mp he with rfl | he
  · exact absurd rfl hne
  · exact ⟨e, List.mem_of_mem_filter he, hwithin, hne⟩

/-- What was written is there, and can be read. -/
theorem content?_write (h : f.write path content = some f') :
    f'.isDirectory path = false ∧ f'.content? path = some content := by
  have hmono : ∀ q, f.isDirectoryAt q = true → f'.isDirectoryAt q = true :=
    fun q hq ↦ isDirectoryAt_of_write h hq
  obtain ⟨p, hplace, hfile, rfl⟩ := write_eq_some h
  have hplace' := place?_mono hmono hplace
  constructor
  · rw [isDirectory, hplace']
    exact isDirectoryAt_eq_false_of_write hfile
  · rw [content?, hplace']
    simp

end Files

/-! ## Checkpoints that are written -/

namespace Checkpoint

variable {k : CursorKey} {p : Position} {points : CursorPoints} {bytes : List UInt8}
  {f f' : Files} {path : String}

/-- A name that a line can hold. -/
def IsSolid (name : String) : Prop :=
  name ≠ "" ∧ ∀ c ∈ name.toList, Text.isBlank c = false

theorem fits_iff_isSolid : fits k = true ↔ IsSolid k.group ∧ IsSolid k.on.topic := by
  simp [fits_iff, isWritable_iff, IsSolid]

/-- A cursor comes back from the file that its checkpoint was written to if a line can hold its
names, and stands where it stood; nothing else comes back. -/
theorem cursors_come_back (hpartition : ∀ k ∈ points, 0 ≤ k.on.partition) :
    Written points (write points) ∧
      ∀ (bytes : List UInt8) (f f' : Files) (path : String), Written points bytes →
        f.write path bytes = some f' →
        ∃ points', (Standalone.checkpointFile f' path).bind load = .ok points' ∧
          ∀ (k : CursorKey) (p : Position), points'[k]? = some p ↔
            points[k]? = some p ∧ IsSolid k.group ∧ IsSolid k.on.topic := by
  refine ⟨written_write points, fun bytes f f' path hwritten hwrite ↦ ?_⟩
  obtain ⟨hdirectory, hcontent⟩ := Files.content?_write hwrite
  refine ⟨points.filter fun k _ ↦ fits k, ?_, fun k p ↦ ?_⟩
  · rw [Standalone.checkpointFile, hdirectory, hcontent]
    exact read_written hpartition hwritten
  · rw [← fits_iff_isSolid, Std.ExtTreeMap.getElem?_filter', Option.filter_eq_some_iff]

/-- Two cursors: the names of the first have in them what separates the parts of a line, the group
of the second has a blank. -/
def twoCursors : CursorPoints :=
  ((∅ : CursorPoints).insert ⟨"a-b:1", "t--1", 3⟩ ⟨-5, -7⟩).insert ⟨"a b", "t", 0⟩ ⟨1, 1⟩

theorem one_of_two_cursors_comes_back : ∃ f points',
    Files.standard.write "cursors" (write twoCursors) = some f ∧
    (Standalone.checkpointFile f "cursors").bind load = .ok points' ∧
    points'[(⟨"a-b:1", "t--1", 3⟩ : CursorKey)]? = some ⟨-5, -7⟩ ∧
    points'[(⟨"a b", "t", 0⟩ : CursorKey)]? = none := by
  have hpartition : ∀ k ∈ twoCursors, 0 ≤ k.on.partition := by
    intro k hk
    simp only [twoCursors, Std.ExtTreeMap.mem_insert, Std.LawfulEqCmp.compare_eq_iff_eq,
      Std.ExtTreeMap.not_mem_empty, or_false] at hk
    rcases hk with rfl | rfl <;> decide
  have hfirst : twoCursors[(⟨"a-b:1", "t--1", 3⟩ : CursorKey)]? = some ⟨-5, -7⟩ := by
    rw [twoCursors, Std.ExtTreeMap.getElem?_insert, if_neg (by decide),
      Std.ExtTreeMap.getElem?_insert_self]
  obtain ⟨f, hwrite⟩ : ∃ f, Files.standard.write "cursors" (write twoCursors) = some f := ⟨_, rfl⟩
  obtain ⟨hwritten, hback⟩ := cursors_come_back hpartition
  obtain ⟨points', hload, hpoints⟩ := hback _ _ f "cursors" hwritten hwrite
  refine ⟨f, points', hwrite, hload, (hpoints _ _).mpr ⟨hfirst, ?_⟩, ?_⟩
  · exact fits_iff_isSolid.mp rfl
  · refine Option.eq_none_iff_forall_ne_some.mpr fun p hp ↦ ?_
    exact absurd (fits_iff_isSolid.mpr ((hpoints _ _).mp hp).2) (by decide)

/-! ## Checkpoints that were read -/

/-- A store that has just come up over loaded cursors flushes these. -/
theorem points_new (owner : String) (points : CursorPoints) :
    (Store.new owner points).points = points := by
  refine Std.ExtTreeMap.ext_getElem? fun k ↦ ?_
  obtain ⟨g, tp⟩ := k
  have hcursor : (Store.new owner points).cursorOf tp g = none := by
    simp [Store.cursorOf, Store.object?, Store.new]
  rw [Store.getElem?_points, hcursor, Option.none_or]
  rfl

/-- Whatever a checkpoint looked like that could be read, a store that is opened over it and flushed
leaves a file with the same cursors, each where it stood, but for those on a topic without a name:
these were read, and they are gone. -/
theorem reread_keeps_named_topics {file : Option (List UInt8)} (hload : load file = .ok points) :
    (∀ owner, (Store.new owner points).points = points) ∧ Written points (write points) ∧
      ∀ (bytes : List UInt8) (f f' : Files) (path : String), Written points bytes →
        f.write path bytes = some f' →
        ∃ points', (Standalone.checkpointFile f' path).bind load = .ok points' ∧
          ∀ (k : CursorKey) (p : Position), points'[k]? = some p ↔
            points[k]? = some p ∧ k.on.topic ≠ "" := by
  refine ⟨fun owner ↦ points_new owner points, written_write points,
    fun bytes f f' path hwritten hwrite ↦ ?_⟩
  obtain ⟨hdirectory, hcontent⟩ := Files.content?_write hwrite
  refine ⟨points.filter fun k _ ↦ k.on.topic != "", ?_, fun k p ↦ ?_⟩
  · rw [Standalone.checkpointFile, hdirectory, hcontent, ← filter_fits_of_load hload]
    exact read_written (nonneg_of_load hload) hwritten
  · rw [Std.ExtTreeMap.getElem?_filter', Option.filter_eq_some_iff, bne_iff_ne]

/-- A checkpoint as nobody writes it: signs and zeros in front of numbers, blanks at both ends of a
line, and two lines for one cursor.  Its last line is for a topic without a name. -/
def oddFile : List UInt8 :=
  Utf8.encode " +01 \ng t--0 5:5\n  g\tt--+00   +7:-03 \ng -0 1:2\n".toList

/-- The cursors of that checkpoint. -/
def oddCursors : CursorPoints :=
  (∅ : CursorPoints).insertMany [(⟨"g", "t-", 0⟩, ⟨7, -3⟩), (⟨"g", "", 0⟩, ⟨1, 2⟩)]

theorem one_of_two_odd_cursors_stays : ∃ f points',
    load (some oddFile) = .ok oddCursors ∧
    Files.standard.write "cursors" (write oddCursors) = some f ∧
    (Standalone.checkpointFile f "cursors").bind load = .ok points' ∧
    points'[(⟨"g", "t-", 0⟩ : CursorKey)]? = some ⟨7, -3⟩ ∧
    points'[(⟨"g", "", 0⟩ : CursorKey)]? = none := by
  have hload : load (some oddFile) = .ok oddCursors := rfl
  obtain ⟨f, hwrite⟩ : ∃ f, Files.standard.write "cursors" (write oddCursors) = some f := ⟨_, rfl⟩
  obtain ⟨-, hwritten, hback⟩ := reread_keeps_named_topics hload
  obtain ⟨points', hload', hpoints⟩ := hback _ _ f "cursors" hwritten hwrite
  refine ⟨f, points', hload, hwrite, hload', (hpoints _ _).mpr ⟨rfl, by decide⟩, ?_⟩
  refine Option.eq_none_iff_forall_ne_some.mpr fun p hp ↦ ?_
  exact ((hpoints _ _).mp hp).2 rfl

/-- A cursor that was read need not come back from the file that is written with it. -/
theorem not_reread_keeps_all : ¬ ∀ (file : List UInt8) (points : CursorPoints),
    read file = .ok points → read (write points) = .ok points := by
  intro hall
  have hload : load (some oddFile) = .ok oddCursors := rfl
  have hback := hall oddFile oddCursors hload
  rw [read_written (nonneg_of_load hload) (written_write _), filter_fits_of_load hload] at hback
  have hlost : (oddCursors.filter fun k _ ↦ k.on.topic != "")[(⟨"g", "", 0⟩ : CursorKey)]? =
      oddCursors[(⟨"g", "", 0⟩ : CursorKey)]? := by rw [Except.ok.inj hback]
  rw [Std.ExtTreeMap.getElem?_filter'] at hlost
  cases hlost

end Checkpoint

end GroupOffsets
