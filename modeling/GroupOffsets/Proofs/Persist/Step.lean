import GroupOffsets.Pass.Persist
import GroupOffsets.Proofs.Entries

/-!
# The steps of a persist pass

What a pass still has to write, and what it is about to.  A pass visits every entry that the table
had when it began and every partition that an entry has when the pass comes to it; it passes over
the entries of system groups and over offsets without a position, and over nothing else.
-/

namespace GroupOffsets

namespace Persist

variable {order : Itinerary} {t : OffsetTable} {isSystem : String → Bool} {s s' : Persist}
variable {k key : GroupTopic} {keys : List GroupTopic} {p : Int32} {o : Offset} {x : Position}
variable {report : PersistReport} {offsets : List (Int32 × Offset)}

/-! ## Nothing is passed over -/

/-- The pass has not yet written an offset: it is about to, or will come to it. -/
def Owes (k : GroupTopic) (p : Int32) (o : Offset) (s : Persist) : Prop :=
  s.key = k ∧ (s.partition = p ∨ (p, o) ∈ s.rest) ∨ k ∈ s.keys

theorem seek_keys (h : seek key keys report offsets = .asks s) : s.key = key ∧ s.keys = keys := by
  fun_induction seek key keys report offsets with
  | case1 => cases h
  | case2 =>
      cases h
      exact ⟨rfl, rfl⟩
  | case3 report partition offset rest e he ih => exact ih h

/-- Of the partitions of an entry, one that has a position is not passed over. -/
theorem seek_owes (keys : List GroupTopic) (report : PersistReport) (hmem : (p, o) ∈ offsets)
    (hx : Position.decode o = .ok x) :
    ∃ s, seek k keys report offsets = .asks s ∧ s.Owes k p o := by
  fun_induction seek k keys report offsets with
  | case1 => cases hmem
  | case2 report partition offset rest position he =>
      refine ⟨_, rfl, .inl ⟨rfl, ?_⟩⟩
      rcases List.mem_cons.mp hmem with heq | hrest
      · exact .inl (congrArg Prod.fst heq).symm
      · exact .inr hrest
  | case3 report partition offset rest e he ih =>
      rcases List.mem_cons.mp hmem with heq | hrest
      · cases heq
        cases he.symm.trans hx
      · exact ih hrest

theorem advance_owes (hk : k ∈ keys) (hsystem : isSystem k.group = false)
    (ho : t.query k p = some o) (hx : Position.decode o = .ok x) :
    ∃ s, advance order t isSystem report keys = .asks s ∧ s.Owes k p o := by
  induction keys generalizing report with
  | nil => cases hk
  | cons key keys ih =>
      have later : k ∈ keys →
          ∃ s, advance order t isSystem report (key :: keys) = .asks s ∧ s.Owes k p o := by
        intro hmem
        rw [advance]
        split
        · exact ih hmem
        · split
          · exact ih hmem
          · split
            · rename_i s hs
              refine ⟨s, rfl, .inr ?_⟩
              rw [(seek_keys hs).2]
              exact hmem
            · exact ih hmem
      rcases List.mem_cons.mp hk with rfl | hmem
      · obtain ⟨offsets, hoffsets, hp⟩ :=
          Option.bind_eq_some_iff.mp (OffsetTable.query_eq_bind ▸ ho)
        have hmem : (p, o) ∈ arrange (order.partitions k) offsets.toList :=
          (mem_arrange ..).mpr (Std.ExtTreeMap.mem_toList_iff_getElem?_eq_some.mpr hp)
        obtain ⟨s, hs, howes⟩ := seek_owes keys report hmem hx
        refine ⟨s, ?_, howes⟩
        simp [advance, hsystem, hoffsets, hs]
      · exact later hmem

/-- A pass that still owes an offset, and is not just asked about it, owes it after the answer. -/
theorem answer_owes (h : s.Owes k p o) (hnot : ¬ (s.key = k ∧ s.partition = p))
    (hsystem : isSystem k.group = false) (ho : t.query k p = some o)
    (hx : Position.decode o = .ok x) (moved : Bool) :
    ∃ s', s.answer order t isSystem moved = .asks s' ∧ s'.Owes k p o := by
  rw [answer]
  rcases h with ⟨rfl, hp | hmem⟩ | hmem
  · exact absurd ⟨rfl, hp⟩ hnot
  · obtain ⟨s', hs', howes⟩ := seek_owes s.keys
      (if moved then s.report.notePersisted else s.report.noteFailed) hmem hx
    exact ⟨s', by rw [hs'], howes⟩
  · split
    · rename_i s' hs'
      refine ⟨s', rfl, .inr ?_⟩
      rw [(seek_keys hs').2]
      exact hmem
    · exact advance_owes hmem hsystem ho hx

/-! ## What is written is what is stored -/

/-- Whatever the pass is about to write for one partition of an entry is one given position. -/
def Fresh (k : GroupTopic) (p : Int32) (x : Position) (s : Persist) : Prop :=
  s.key = k → (s.partition = p → s.position = x) ∧
    ∀ o, (p, o) ∈ s.rest → ∀ y, Position.decode o = .ok y → y = x

theorem seek_fresh (hall : key = k → ∀ o, (p, o) ∈ offsets → ∀ y, Position.decode o = .ok y → y = x)
    (h : seek key keys report offsets = .asks s) : s.Fresh k p x := by
  fun_induction seek key keys report offsets with
  | case1 => cases h
  | case2 report partition offset rest position he =>
      cases h
      intro hk
      refine ⟨?_, fun o hmem ↦ hall hk o (List.mem_cons_of_mem _ hmem)⟩
      rintro rfl
      exact hall hk offset (List.mem_cons_self ..) position he
  | case3 report partition offset rest e he ih =>
      exact ih (fun hk o hmem ↦ hall hk o (List.mem_cons_of_mem _ hmem)) h

/-- An entry is copied when the pass comes to it. -/
theorem advance_fresh (ho : t.query k p = some o) (hx : Position.decode o = .ok x)
    (h : advance order t isSystem report keys = .asks s) : s.Fresh k p x := by
  induction keys generalizing report with
  | nil => cases h
  | cons key keys ih =>
      rw [advance] at h
      split at h
      · exact ih h
      · split at h
        · exact ih h
        · rename_i offsets hoffsets
          split at h
          · rename_i s' hs'
            cases h
            refine seek_fresh ?_ hs'
            rintro rfl o' hmem y hy
            have hp : offsets[p]? = some o' :=
              Std.ExtTreeMap.mem_toList_iff_getElem?_eq_some.mp ((mem_arrange ..).mp hmem)
            rw [OffsetTable.query_eq_bind, hoffsets, Option.bind_some, hp] at ho
            cases ho
            exact Except.ok.inj (hy.symm.trans hx)
          · exact ih h

theorem answer_fresh (hs : s.Fresh k p x) (ho : t.query k p = some o)
    (hx : Position.decode o = .ok x) {moved : Bool}
    (h : s.answer order t isSystem moved = .asks s') : s'.Fresh k p x := by
  rw [answer] at h
  split at h
  · rename_i s'' hs''
    cases h
    exact seek_fresh (fun hk ↦ (hs hk).2) hs''
  · exact advance_fresh ho hx h

end Persist

end GroupOffsets
