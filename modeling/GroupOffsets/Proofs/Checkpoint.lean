import GroupOffsets.Checkpoint
import GroupOffsets.Proofs.Entries
import GroupOffsets.Proofs.Text.Fields
import GroupOffsets.Proofs.Text.Utf8

/-!
# Checkpoint round trip

A checkpoint that was written is read back: every cursor that a line can hold comes back where it
stood, and no other cursor spoils the file.  Partitions below zero are the one exception, since
their sign looks like the separator in front of them; a store that was filled from a checkpoint
and from partitions at or above zero has none.
-/

namespace GroupOffsets

namespace Checkpoint

variable {k : CursorKey} {p : Position} {points : CursorPoints}

/-! ## One line -/

/-- A line without its end. -/
def body (k : CursorKey) (p : Position) : List Char :=
  k.group.toList ++ ' ' :: (k.on.text.toList ++ ' ' :: p.text.toList)

theorem line_eq : line k p = body k p ++ ['\n'] := by
  simp [line, body]

theorem isWritable_iff {name : String} : isWritable name = true ↔
    name.toList ≠ [] ∧ ∀ c ∈ name.toList, Text.isBlank c = false := by
  simp [isWritable]

theorem fits_iff : fits k = true ↔ isWritable k.group = true ∧ isWritable k.on.topic = true := by
  simp [fits]

theorem toList_text_position :
    p.text.toList = Numeral.print p.segment.toInt ++ ':' :: Numeral.print p.entry.toInt := by
  simp [Position.text, Numeral.text]

theorem isBlank_eq_false_of_mem_text {tp : TopicPartition} (ht : isWritable tp.topic = true)
    {c : Char} (h : c ∈ tp.text.toList) : Text.isBlank c = false := by
  rw [TopicPartition.toList_text, List.mem_append, List.mem_cons] at h
  rcases h with h | rfl | h
  · exact (isWritable_iff.mp ht).2 c h
  · decide
  · exact Numeral.isBlank_eq_false_of_mem_print h

theorem isBlank_eq_false_of_mem_position {c : Char} (h : c ∈ p.text.toList) :
    Text.isBlank c = false := by
  rw [toList_text_position, List.mem_append, List.mem_cons] at h
  rcases h with h | rfl | h
  · exact Numeral.isBlank_eq_false_of_mem_print h
  · decide
  · exact Numeral.isBlank_eq_false_of_mem_print h

theorem newline_not_mem_body (h : fits k = true) : '\n' ∉ body k p := by
  obtain ⟨hg, ht⟩ := fits_iff.mp h
  have hblank : ∀ {cs : List Char}, (∀ c ∈ cs, Text.isBlank c = false) → '\n' ∉ cs :=
    fun hcs hn ↦ absurd (hcs _ hn) (by decide)
  have hgroup := hblank (isWritable_iff.mp hg).2
  have htopic := hblank fun c hc ↦ isBlank_eq_false_of_mem_text ht hc
  have hposition := hblank fun c hc ↦ isBlank_eq_false_of_mem_position (p := p) hc
  simp [body, hgroup, htopic, hposition]

theorem fields_line (h : fits k = true) : Text.fields (line k p) =
    [k.group.toList, k.on.text.toList, p.text.toList] := by
  obtain ⟨hg, ht⟩ := fits_iff.mp h
  have hgroup := isWritable_iff.mp hg
  have hname : k.on.text.toList ≠ [] := by simp [TopicPartition.toList_text]
  have hposition : p.text.toList ≠ [] := by simp [toList_text_position]
  rw [line_eq, body, List.append_assoc, List.cons_append, List.append_assoc, List.cons_append,
    Text.fields_append hgroup.1 hgroup.2 (by decide),
    Text.fields_append hname (fun c hc ↦ isBlank_eq_false_of_mem_text ht hc) (by decide),
    Text.fields_append hposition (fun c hc ↦ isBlank_eq_false_of_mem_position hc) (by decide)]
  rfl

/-- The line of a cursor says which cursor it is, and where it stands. -/
theorem readLine_line (h : fits k = true) (hp : 0 ≤ k.on.partition) :
    readLine (line k p) = .ok (k, p) := by
  have hcolon : ':' ∉ Numeral.print p.segment.toInt := Numeral.not_mem_print (by decide) (by decide)
  have hsplit : splitColon p.text.toList =
      some (Numeral.print p.segment.toInt, Numeral.print p.entry.toInt) := by
    rw [toList_text_position, splitColon_append hcolon]
  simp [readLine, fields_line h, TopicPartition.ofText_text hp, hsplit, number,
    Numeral.readInt64_print, Except.mapError, bind, Except.bind]

/-! ## The whole file -/

theorem lines_encode_flatMap {cs : List (CursorKey × Position)} (h : ∀ c ∈ cs, fits c.1 = true) :
    lines (Utf8.encode (cs.flatMap fun c ↦ line c.1 c.2)) =
      cs.map fun c ↦ Utf8.encode (line c.1 c.2) := by
  have hnewline : Utf8.encode ['\n'] = [10] := by decide
  induction cs with
  | nil => rfl
  | cons c cs ih =>
      have hc : fits c.1 = true := h c (List.mem_cons_self ..)
      rw [List.flatMap_cons, Utf8.encode_append, line_eq, Utf8.encode_append, hnewline,
        List.append_assoc, List.singleton_append,
        lines_append (Utf8.newline_not_mem_encode (newline_not_mem_body hc)),
        ih fun x hx ↦ h x (List.mem_cons_of_mem _ hx), List.map_cons, line_eq, Utf8.encode_append,
        hnewline]

theorem header_eq : header = ['1', '\n'] := by
  have hprint : Numeral.print version.toInt = Numeral.digits 1 := rfl
  rw [header, hprint, Numeral.digits, if_pos (by decide)]
  rfl

theorem readHeader_header : readHeader header = .ok () := by
  rw [header_eq]
  rfl

/-- The file that lists some cursors, one line after the other. -/
def listed (cs : List (CursorKey × Position)) : List UInt8 :=
  Utf8.encode (header ++ cs.flatMap fun c ↦ line c.1 c.2)

theorem lines_listed {cs : List (CursorKey × Position)} (h : ∀ c ∈ cs, fits c.1 = true) :
    lines (listed cs) = Utf8.encode header :: cs.map fun c ↦ Utf8.encode (line c.1 c.2) := by
  have hheader : Utf8.encode header = [49] ++ [10] := by
    rw [header_eq]
    decide
  rw [listed, Utf8.encode_append, hheader, List.append_assoc, List.singleton_append (x := 10),
    lines_append (by decide), lines_encode_flatMap h]

theorem decode_encode (cs : List Char) : decode (Utf8.encode cs) = .ok cs := by
  rw [decode, Utf8.decode_encode]
  rfl

theorem readLines_map {cs : List (CursorKey × Position)} {acc : CursorPoints}
    (h : ∀ c ∈ cs, fits c.1 = true ∧ 0 ≤ c.1.on.partition) :
    readLines acc (cs.map fun c ↦ Utf8.encode (line c.1 c.2)) = .ok (acc.insertMany cs) := by
  induction cs generalizing acc with
  | nil => rfl
  | cons c cs ih =>
      obtain ⟨hc, hp⟩ := h c (List.mem_cons_self ..)
      rw [List.map_cons, readLines, decode_encode]
      simp only [bind, Except.bind, readLine_line hc hp]
      rw [ih fun x hx ↦ h x (List.mem_cons_of_mem _ hx), Std.ExtTreeMap.insertMany_cons]

/-- A file that lists some cursors is read by adding one after the other. -/
theorem read_listed {cs : List (CursorKey × Position)}
    (h : ∀ c ∈ cs, fits c.1 = true ∧ 0 ≤ c.1.on.partition) :
    read (listed cs) = .ok ((∅ : CursorPoints).insertMany cs) := by
  rw [read, lines_listed fun c hc ↦ (h c hc).1]
  simp only [decode_encode, bind, Except.bind, readHeader_header]
  exact readLines_map h

/-- A file of a checkpoint, in whichever order the cursors were met. -/
def Written (points : CursorPoints) (bytes : List UInt8) : Prop :=
  ∃ cs : List (CursorKey × Position), cs.Perm points.toList ∧
    bytes = listed (cs.filter fun c ↦ fits c.1)

theorem written_write (points : CursorPoints) : Written points (write points) :=
  ⟨points.toList, .refl _, rfl⟩

/-- What was written is read back, up to the cursors that no line can hold.  The order of the lines
means nothing. -/
theorem read_written (hpartition : ∀ k ∈ points, 0 ≤ k.on.partition) {bytes : List UInt8}
    (h : Written points bytes) : read bytes = .ok (points.filter fun k _ ↦ fits k) := by
  obtain ⟨cs, hperm, rfl⟩ := h
  have hmem : ∀ c ∈ cs.filter fun c ↦ fits c.1, fits c.1 = true ∧ 0 ≤ c.1.on.partition := by
    intro c hc
    obtain ⟨hc, hfits⟩ := List.mem_filter.mp hc
    exact ⟨hfits, hpartition c.1 (mem_of_mem_toList (hperm.mem_iff.mp hc))⟩
  have hperm' : (cs.filter fun c ↦ fits c.1).Perm (points.filter fun k _ ↦ fits k).toList := by
    rw [Std.ExtTreeMap.toList_filter]
    exact hperm.filter _
  rw [read_listed hmem, insertMany_of_perm hperm']

theorem bind_eq_ok {α β : Type} {x : Attempt α} {f : α → Attempt β} {b : β} (h : x >>= f = .ok b) :
    ∃ a, x = .ok a ∧ f a = .ok b := by
  cases x with
  | error e => cases h
  | ok a => exact ⟨a, rfl, h⟩

theorem nonneg_of_readLine {cs : List Char} {c : CursorKey × Position} (h : readLine cs = .ok c) :
    0 ≤ c.1.on.partition := by
  rw [readLine] at h
  split at h
  · obtain ⟨on, hon, h⟩ := bind_eq_ok h
    obtain ⟨_, -, h⟩ := bind_eq_ok h
    obtain ⟨_, -, h⟩ := bind_eq_ok h
    obtain ⟨_, -, h⟩ := bind_eq_ok h
    cases h
    exact TopicPartition.nonneg_of_ofText hon
  · cases h

/-- The names of a line that can be read are fields, or stand in one. -/
theorem fits_of_readLine {cs : List Char} {c : CursorKey × Position} (h : readLine cs = .ok c) :
    fits c.1 = (c.1.on.topic != "") := by
  rw [readLine] at h
  split at h
  · rename_i group name position hfields
    obtain ⟨on, hon, h⟩ := bind_eq_ok h
    obtain ⟨_, -, h⟩ := bind_eq_ok h
    obtain ⟨_, -, h⟩ := bind_eq_ok h
    obtain ⟨_, -, h⟩ := bind_eq_ok h
    cases h
    have hsolid : ∀ {word}, word ∈ [group, name, position] →
        word ≠ [] ∧ ∀ c ∈ word, Text.isBlank c = false :=
      fun hword ↦ (Text.fields_eq_iff.mp hfields).solid hword
    obtain ⟨numeral, hname⟩ := TopicPartition.topic_of_ofText hon
    rw [String.toList_ofList] at hname
    have htopic : ∀ c ∈ on.topic.toList, Text.isBlank c = false := fun c hc ↦
      (hsolid (List.mem_cons_of_mem _ (List.mem_cons_self ..))).2 c
        (hname ▸ List.mem_append_left _ hc)
    obtain ⟨hne, hgroup⟩ := hsolid (List.mem_cons_self ..)
    rw [Bool.eq_iff_iff, fits_iff, isWritable_iff, isWritable_iff, String.toList_ofList, bne_iff_ne]
    exact ⟨fun h ↦ by simpa using h.2.1, fun h ↦ ⟨⟨hne, hgroup⟩, by simpa using h, htopic⟩⟩
  · cases h

/-- What is true of the cursor of every line that can be read is true of all cursors of a file. -/
theorem forall_of_readLines {P : CursorKey → Prop}
    (hline : ∀ {cs c}, readLine cs = .ok c → P c.1) {acc : CursorPoints} {ls : List (List UInt8)}
    (hacc : ∀ k ∈ acc, P k) (h : readLines acc ls = .ok points) : ∀ k ∈ points, P k := by
  induction ls generalizing acc with
  | nil =>
      cases h
      exact hacc
  | cons l ls ih =>
      rw [readLines] at h
      obtain ⟨cs, -, h⟩ := bind_eq_ok h
      obtain ⟨c, hc, h⟩ := bind_eq_ok h
      refine ih (fun k hk ↦ ?_) h
      rcases Std.ExtTreeMap.mem_insert.mp hk with hk | hk
      · rw [← Std.LawfulEqCmp.eq_of_compare hk]
        exact hline hc
      · exact hacc k hk

theorem forall_of_load {P : CursorKey → Prop} (hline : ∀ {cs c}, readLine cs = .ok c → P c.1)
    {file : Option (List UInt8)} (h : load file = .ok points) : ∀ k ∈ points, P k := by
  have hempty : ∀ k ∈ (∅ : CursorPoints), P k := fun k hk ↦ by simp at hk
  cases file with
  | none =>
      cases h
      exact hempty
  | some file =>
      rw [load, read] at h
      split at h
      · obtain ⟨_, -, h⟩ := bind_eq_ok h
        cases h
        exact hempty
      · obtain ⟨_, -, h⟩ := bind_eq_ok h
        obtain ⟨_, -, h⟩ := bind_eq_ok h
        exact forall_of_readLines hline hempty h

/-- No file gives a partition below zero. -/
theorem nonneg_of_load {file : Option (List UInt8)} (h : load file = .ok points) :
    ∀ k ∈ points, 0 ≤ k.on.partition := forall_of_load nonneg_of_readLine h

/-- Of the cursors that were read, a line can hold all but those on a topic without a name. -/
theorem fits_of_load {file : Option (List UInt8)} (h : load file = .ok points) :
    ∀ k ∈ points, fits k = (k.on.topic != "") := forall_of_load fits_of_readLine h

theorem filter_fits_of_load {file : Option (List UInt8)} (h : load file = .ok points) :
    points.filter (fun k _ ↦ fits k) = points.filter fun k _ ↦ k.on.topic != "" := by
  refine Std.ExtTreeMap.ext_getElem? fun k ↦ ?_
  rw [Std.ExtTreeMap.getElem?_filter', Std.ExtTreeMap.getElem?_filter']
  cases hk : points[k]? with
  | none => rfl
  | some p =>
      have hmem : k ∈ points := Std.ExtTreeMap.mem_iff_isSome_getElem?.mpr (hk ▸ rfl)
      rw [Option.filter_some, Option.filter_some, fits_of_load h k hmem]

end Checkpoint

end GroupOffsets
