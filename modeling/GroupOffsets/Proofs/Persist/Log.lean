import GroupOffsets.Proofs.Persist.Run

/-!
# What persist passes read and write

A persist pass copies one entry of the table after the other, and moves a cursor for each offset of
a copy once it is handed the partition, which may be much later.  The log of a run says what the
passes did, in order.  It is *ordered* if a pass copies an entry at most once, and if between a copy
and a cursor that is moved to an offset of it nobody else has moved the cursor for that offset.
-/

namespace GroupOffsets

namespace Persist

/-- Something that a persist pass does, with the number by which it holds its turn. -/
inductive Act where
  /-- It copies an entry of the table. -/
  | copies (turn : Nat) (k : GroupTopic) (offsets : PartitionOffsets)
  /-- It asks a partition object to move a cursor, which may fail. -/
  | moves (turn : Nat) (k : GroupTopic) (p : Int32) (h : Handle) (x : Position) (moved : Bool)

/-- The pass that does it. -/
def Act.turn : Act → Nat
  | copies turn _ _ | moves turn _ _ _ _ _ => turn

/-- Copies of entries, by one pass. -/
def copies (turn : Nat) (entries : List (GroupTopic × PartitionOffsets)) : List Act :=
  entries.map fun e => .copies turn e.1 e.2

theorem turn_of_mem_copies {turn : Nat} {entries : List (GroupTopic × PartitionOffsets)} {a : Act}
    (ha : a ∈ copies turn entries) : a.turn = turn := by
  obtain ⟨e, -, rfl⟩ := List.mem_map.mp ha
  rfl

/-! ## Ordered logs -/

variable {log before after : List Act} {turn turn' : Nat} {k key : GroupTopic} {p : Int32}
variable {copy : PartitionOffsets} {ps : List Int32} {h h' : Handle} {x x' : Position} {a : Act}

/-- A pass has copied an entry, and since then no cursor was moved for these partitions of it. -/
def Copied (log : List Act) (turn : Nat) (k : GroupTopic) (copy : PartitionOffsets)
    (ps : List Int32) : Prop :=
  ∃ before after, log = before ++ .copies turn k copy :: after ∧
    ∀ turn' p h x moved, .moves turn' k p h x moved ∈ after → p ∉ ps

/-- What an act asks of the log before it.  An entry is not copied twice by one pass, and a cursor
is moved to an offset that the pass has copied since the cursor was moved last. -/
def Act.Fits (log : List Act) : Act → Prop
  | copies turn k _ => ∀ copy, .copies turn k copy ∉ log
  | moves turn k p _ x _ =>
    ∃ copy o, Copied log turn k copy [p] ∧ copy[p]? = some o ∧ Position.decode o = .ok x

/-- A log in which every act fits. -/
def Ordered (log : List Act) : Prop := ∀ before a after, log = before ++ a :: after → a.Fits before

theorem ordered_nil : Ordered [] := by
  intro before a after h
  simp at h

theorem Ordered.concat (hlog : Ordered log) (ha : a.Fits log) : Ordered (log ++ [a]) := by
  intro before a' after heq
  rcases after.eq_nil_or_concat with rfl | ⟨after, last, rfl⟩
  · obtain ⟨rfl, hlast⟩ := List.append_inj' heq rfl
    cases hlast
    exact ha
  · have hsplit : log ++ [a] = (before ++ a' :: after) ++ [last] := by simpa using heq
    exact hlog before a' after (List.append_inj' hsplit rfl).1

theorem Copied.mem (hcopied : Copied log turn k copy ps) : .copies turn k copy ∈ log := by
  obtain ⟨before, after, rfl, -⟩ := hcopied
  simp

theorem Copied.mono {ps' : List Int32} (hcopied : Copied log turn k copy ps) (hps : ps' ⊆ ps) :
    Copied log turn k copy ps' := by
  obtain ⟨before, after, hlog, hafter⟩ := hcopied
  exact ⟨before, after, hlog, fun t p h x moved hmem hp ↦ hafter t p h x moved hmem (hps hp)⟩

theorem Copied.concat (hcopied : Copied log turn k copy ps)
    (ha : ∀ turn' p h x moved, a = .moves turn' k p h x moved → p ∉ ps) :
    Copied (log ++ [a]) turn k copy ps := by
  obtain ⟨before, after, rfl, hafter⟩ := hcopied
  refine ⟨before, after ++ [a], by simp, fun t p h x moved hmem ↦ ?_⟩
  rcases List.mem_append.mp hmem with hold | hlast
  · exact hafter t p h x moved hold
  · exact ha t p h x moved (List.mem_singleton.mp hlast).symm

theorem copied_concat (log : List Act) (turn : Nat) (k : GroupTopic) (copy : PartitionOffsets)
    (ps : List Int32) : Copied (log ++ [.copies turn k copy]) turn k copy ps :=
  ⟨log, [], rfl, fun _ _ _ _ _ hmem ↦ absurd hmem List.not_mem_nil⟩

/-- A pass copies an entry once. -/
theorem Ordered.copied_once (hlog : Ordered log)
    (heq : log = before ++ .copies turn k copy :: after) (copy' : PartitionOffsets) :
    .copies turn k copy' ∉ before ++ after := by
  intro hmem
  rcases List.mem_append.mp hmem with hbefore | hafter
  · exact hlog _ _ _ heq copy' hbefore
  · obtain ⟨middle, after, rfl⟩ := List.append_of_mem hafter
    have hfits : (Act.copies turn k copy').Fits (before ++ .copies turn k copy :: middle) :=
      hlog _ _ after (by simp [heq])
    exact absurd (by simp) (hfits copy)

theorem Ordered.copy_eq {copy' : PartitionOffsets} (hlog : Ordered log)
    (hmem : .copies turn k copy ∈ log) (hmem' : .copies turn k copy' ∈ log) : copy' = copy := by
  obtain ⟨before, after, heq⟩ := List.append_of_mem hmem
  have honce := hlog.copied_once heq copy'
  rw [heq] at hmem'
  rcases List.mem_append.mp hmem' with hbefore | hafter
  · exact absurd (List.mem_append_left _ hbefore) honce
  · rcases List.mem_cons.mp hafter with hsame | hafter
    · cases hsame
      rfl
    · exact absurd (List.mem_append_right _ hafter) honce

/-- What is between two cursors moved for one offset: the copy from which the second one was. -/
theorem Ordered.copied_between {middle : List Act} {moved moved' : Bool} (hlog : Ordered log)
    (heq : log = before ++ .moves turn k p h x moved :: middle ++
      .moves turn' k p h' x' moved' :: after) :
    ∃ copy o, .copies turn' k copy ∈ middle ∧ copy[p]? = some o ∧ Position.decode o = .ok x' := by
  obtain ⟨copy, o, ⟨front, back, hsplit, hback⟩, ho, hx⟩ := hlog _ _ _ heq
  refine ⟨copy, o, ?_, ho, hx⟩
  rcases List.append_eq_append_iff.mp hsplit with ⟨gap, rfl, hgap⟩ | ⟨gap, rfl, hgap⟩
  · rcases gap with _ | ⟨a, gap⟩
    · cases hgap
    · cases hgap
      simp
  · -- the first cursor would have been moved after the copy
    have hmem : .moves turn k p h x moved ∈ back := by
      rcases gap with _ | ⟨a, gap⟩
      · cases hgap
      · cases hgap
        simp
    exact absurd (List.mem_singleton_self p) (hback _ _ _ _ _ hmem)

/-! ## One pass -/

section Copies

variable (order : Itinerary) (t : OffsetTable) (isSystem : String → Bool)

/-- The entries that a pass copies when it goes over entries. -/
def entriesCopied (report : PersistReport) : List GroupTopic → List (GroupTopic × PartitionOffsets)
  | [] => []
  | key :: keys =>
    if isSystem key.group then entriesCopied report.noteSystem keys
    else match t.partitions key with
      | none => entriesCopied report keys
      | some offsets =>
        (key, offsets) ::
          match seek key keys report (arrange (order.partitions key) offsets.toList) with
          | .asks _ => []
          | .done report => entriesCopied report keys

/-- The entries that a pass copies when it begins. -/
def startCopied : List (GroupTopic × PartitionOffsets) :=
  entriesCopied order t isSystem ∅ (arrange order.entries t.keys)

/-- The entries that a pass copies when it goes on. -/
def answerCopied (s : Persist) (moved : Bool) : List (GroupTopic × PartitionOffsets) :=
  let report := if moved then s.report.notePersisted else s.report.noteFailed
  match seek s.key s.keys report s.rest with
  | .asks _ => []
  | .done report => entriesCopied order t isSystem report s.keys

end Copies

/-- Entries are copied as the table has them. -/
theorem partitions_of_mem_entriesCopied {order : Itinerary} {t : OffsetTable}
    {isSystem : String → Bool} {report : PersistReport} {keys : List GroupTopic}
    (hmem : (k, copy) ∈ entriesCopied order t isSystem report keys) :
    t.partitions k = some copy := by
  induction keys generalizing report with
  | nil => cases hmem
  | cons key keys ih =>
      rw [entriesCopied] at hmem
      split at hmem
      · exact ih hmem
      · split at hmem
        · exact ih hmem
        · rename_i offsets hoffsets
          rcases List.mem_cons.mp hmem with heq | hmem
          · cases heq
            exact hoffsets
          · split at hmem
            · cases hmem
            · exact ih hmem

/-- A pass has copied an entry and will visit these offsets of the copy and these entries; nobody
has moved a cursor for the offsets since. -/
structure Ahead (log : List Act) (turn : Nat) (key : GroupTopic) (offsets : List (Int32 × Offset))
    (keys : List GroupTopic) : Prop where
  nodup_keys : keys.Nodup
  uncopied : ∀ k ∈ keys, ∀ copy, .copies turn k copy ∉ log
  nodup : (offsets.map Prod.fst).Nodup
  copied : ∃ copy, Copied log turn key copy (offsets.map Prod.fst) ∧
    ∀ p o, (p, o) ∈ offsets → copy[p]? = some o

/-- What a pass is about to write, and will write, it has copied. -/
def Follows (log : List Act) (turn : Nat) (s : Persist) : Prop :=
  ∃ o, Ahead log turn s.key ((s.partition, o) :: s.rest) s.keys ∧ Position.decode o = .ok s.position

variable {order : Itinerary} {t : OffsetTable} {isSystem : String → Bool} {s : Persist}
variable {keys : List GroupTopic} {report : PersistReport} {offsets : List (Int32 × Offset)}
variable {e : Int32 × Offset}

theorem Ahead.tail (hahead : Ahead log turn key (e :: offsets) keys) :
    Ahead log turn key offsets keys := by
  obtain ⟨copy, hcopied, hoffsets⟩ := hahead.copied
  exact ⟨hahead.nodup_keys, hahead.uncopied, (List.nodup_cons.mp hahead.nodup).2, copy,
    hcopied.mono (List.subset_cons_self ..), fun p o hmem ↦
      hoffsets p o (List.mem_cons_of_mem _ hmem)⟩

/-- An offset that was written is not visited again. -/
theorem Ahead.moved (hahead : Ahead log turn key (e :: offsets) keys) (h : Handle) (x : Position)
    (moved : Bool) :
    Ahead (log ++ [.moves turn key e.1 h x moved]) turn key offsets keys := by
  obtain ⟨copy, hcopied, hoffsets⟩ := hahead.tail.copied
  refine ⟨hahead.nodup_keys, fun k hk copy ↦ by simpa using hahead.uncopied k hk copy,
    hahead.tail.nodup, copy, hcopied.concat fun turn' p h x moved heq ↦ ?_, hoffsets⟩
  cases heq
  exact (List.nodup_cons.mp hahead.nodup).1

theorem Follows.fits (hs : Follows log turn s) (h : Handle) (moved : Bool) :
    (Act.moves turn s.key s.partition h s.position moved).Fits log := by
  obtain ⟨o, hahead, hx⟩ := hs
  obtain ⟨copy, hcopied, hoffsets⟩ := hahead.copied
  exact ⟨copy, o, hcopied.mono (by simp), hoffsets _ o (List.mem_cons_self ..), hx⟩

/-- Acts of another pass that move no cursor are in nobody's way. -/
theorem Follows.copies (hs : Follows log turn s) (hne : turn ≠ turn')
    (entries : List (GroupTopic × PartitionOffsets)) :
    Follows (log ++ Persist.copies turn' entries) turn s := by
  obtain ⟨o, hahead, hx⟩ := hs
  obtain ⟨copy, ⟨before, after, rfl, hafter⟩, hoffsets⟩ := hahead.copied
  refine ⟨o, ⟨hahead.nodup_keys, fun k hk copy hmem ↦ ?_, hahead.nodup, copy,
    ⟨before, after ++ Persist.copies turn' entries, by simp, fun t p h x moved hmem ↦ ?_⟩,
    hoffsets⟩, hx⟩
  · rcases List.mem_append.mp hmem with hold | hnew
    · exact hahead.uncopied k hk copy hold
    · obtain ⟨e, -, heq⟩ := List.mem_map.mp hnew
      cases heq
      exact hne rfl
  · rcases List.mem_append.mp hmem with hold | hnew
    · exact hafter t p h x moved hold
    · obtain ⟨e, -, heq⟩ := List.mem_map.mp hnew
      cases heq

theorem seek_follows (hahead : Ahead log turn key offsets keys)
    (hs : seek key keys report offsets = .asks s) : Follows log turn s := by
  fun_induction seek key keys report offsets with
  | case1 => cases hs
  | case2 report partition offset rest position he =>
      cases hs
      exact ⟨offset, hahead, he⟩
  | case3 report partition offset rest e he ih => exact ih hahead.tail hs

/-- The copies that a pass makes when it goes over entries. -/
theorem ordered_advance (hlog : Ordered log) (hnodup : keys.Nodup)
    (huncopied : ∀ k ∈ keys, ∀ copy, .copies turn k copy ∉ log) :
    Ordered (log ++ copies turn (entriesCopied order t isSystem report keys)) ∧
      ∀ s, advance order t isSystem report keys = .asks s →
        Follows (log ++ copies turn (entriesCopied order t isSystem report keys)) turn s := by
  induction keys generalizing log report with
  | nil => exact ⟨by simpa [entriesCopied, copies] using hlog, fun s hs ↦ by cases hs⟩
  | cons key keys ih =>
      obtain ⟨hkey, hnodup⟩ := List.nodup_cons.mp hnodup
      have hkeys : ∀ k ∈ keys, ∀ copy, .copies turn k copy ∉ log :=
        fun k hk ↦ huncopied k (List.mem_cons_of_mem _ hk)
      rw [advance, entriesCopied]
      split
      · exact ih hlog hnodup hkeys
      · cases t.partitions key with
        | none => exact ih hlog hnodup hkeys
        | some offsets =>
          have hcopy : Ordered (log ++ [.copies turn key offsets]) :=
            hlog.concat (huncopied key (List.mem_cons_self ..))
          have hkeys' : ∀ k ∈ keys, ∀ copy,
              .copies turn k copy ∉ log ++ [.copies turn key offsets] := by
            intro k hk copy hmem
            rcases List.mem_append.mp hmem with hold | hnew
            · exact hkeys k hk copy hold
            · cases List.mem_singleton.mp hnew
              exact hkey hk
          have hahead : Ahead (log ++ [.copies turn key offsets]) turn key
              (arrange (order.partitions key) offsets.toList) keys := by
            refine ⟨hnodup, hkeys', ?_, offsets, copied_concat .., fun p o hmem ↦ ?_⟩
            · exact ((arrange_perm _ _).map _).nodup_iff.mpr (nodup_fst_toList offsets)
            · exact Std.ExtTreeMap.mem_toList_iff_getElem?_eq_some.mp ((mem_arrange ..).mp hmem)
          cases hs : seek key keys report (arrange (order.partitions key) offsets.toList) with
          | asks s =>
              dsimp only
              rw [hs]
              refine ⟨hcopy, fun s' hs' ↦ ?_⟩
              cases hs'
              exact seek_follows hahead hs
          | done report' =>
              have hrest := @ih _ report' hcopy hnodup hkeys'
              rw [List.append_assoc] at hrest
              dsimp only
              rwa [hs]

theorem ordered_start (order : Itinerary) (t : OffsetTable) (isSystem : String → Bool)
    (hlog : Ordered log) (hfresh : ∀ a ∈ log, a.turn ≠ turn) :
    Ordered (log ++ copies turn (startCopied order t isSystem)) ∧
      ∀ s, start order t isSystem = .asks s →
        Follows (log ++ copies turn (startCopied order t isSystem)) turn s :=
  ordered_advance hlog (nodup_arrange order.entries OffsetTable.nodup_keys)
    fun _ _ _ hmem ↦ hfresh _ hmem rfl

/-- The copies that a pass makes when it goes on, after what it was asking for. -/
theorem ordered_answer (order : Itinerary) (t : OffsetTable) (isSystem : String → Bool)
    (hlog : Ordered log) (hahead : Ahead log turn s.key s.rest s.keys) (moved : Bool) :
    Ordered (log ++ copies turn (answerCopied order t isSystem s moved)) ∧
      ∀ s', s.answer order t isSystem moved = .asks s' →
        Follows (log ++ copies turn (answerCopied order t isSystem s moved)) turn s' := by
  rw [answer, answerCopied]
  cases hs : seek s.key s.keys (if moved then s.report.notePersisted else s.report.noteFailed)
    s.rest with
  | asks s'' =>
      refine ⟨by simpa [copies] using hlog, fun s' hs' ↦ ?_⟩
      cases hs'
      simpa [copies] using seek_follows hahead hs
  | done report => exact ordered_advance hlog hahead.nodup_keys hahead.uncopied

end Persist

end GroupOffsets
