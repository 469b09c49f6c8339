import GroupOffsets.Proofs.Provenance
import GroupOffsets.Proofs.Seeding

/-!
# Registering partitions

Registering a partition caches a handle on it, unless there is one, and seeds the table from the
cursors on the cached handle.  Every seed goes to a place of its own, and none goes where something
is stored.  So seeds do not get into each other's way: neither the order of the cursors matters, nor
that of several registrations, and to register once more changes nothing.
-/

namespace GroupOffsets

/-! ## The cache -/

namespace Cache

variable {c : Cache} {tp tp' : TopicPartition} {h h' : Handle}

theorem insertIfAbsent_fst : (c.insertIfAbsent tp h).1 = (c.get? tp).getD h := by
  rw [insertIfAbsent]
  cases c.get? tp <;> rfl

theorem get?_refresh_of_ne (hne : tp ≠ tp') : (c.refresh tp h).get? tp' = c.get? tp' := by
  rw [get?_refresh, if_neg hne.symm]

theorem refresh_comm (hne : tp ≠ tp') :
    (c.refresh tp h).refresh tp' h' = (c.refresh tp' h').refresh tp h := by
  refine congrArg (Cache.mk · c.generations) (insertIn_comm fun htopic hpartition ↦ hne ?_)
  cases tp
  cases tp'
  cases htopic
  cases hpartition
  rfl

/-- Handles on two partitions are cached in either order. -/
theorem insertIfAbsent_comm (hne : tp ≠ tp') :
    ((c.insertIfAbsent tp h).2.insertIfAbsent tp' h').2 =
      ((c.insertIfAbsent tp' h').2.insertIfAbsent tp h).2 := by
  cases hc : c.get? tp with
  | some cached =>
      have hkept : (c.insertIfAbsent tp' h').2.get? tp = some cached := by
        rw [get?_insertIfAbsent, hc, Option.some_or]
      rw [insertIfAbsent_of_some hc, insertIfAbsent_of_some hkept]
  | none =>
      rw [insertIfAbsent_of_none hc]
      cases hc' : c.get? tp' with
      | some cached' =>
          rw [insertIfAbsent_of_some ((get?_refresh_of_ne hne).trans hc'),
            insertIfAbsent_of_some hc', insertIfAbsent_of_none hc]
      | none =>
          rw [insertIfAbsent_of_none ((get?_refresh_of_ne hne).trans hc'),
            insertIfAbsent_of_none hc',
            insertIfAbsent_of_none ((get?_refresh_of_ne hne.symm).trans hc), refresh_comm hne]

end Cache

/-! ## Registrations -/

namespace Bridge

variable {b : Bridge} {order order' : List Nat} {h h' : Handle} {k : GroupTopic} {p : Int32}

/-- The partition that a handle is on. -/
def nameOf (b : Bridge) (h : Handle) : TopicPartition := (b.store.partition h).name

/-- The cursors of the groups of users on a handle, in some order. -/
def userCursors (b : Bridge) (order : List Nat) (h : Handle) : List (String × Position) :=
  (arrange order (b.store.partition h).cursors.toList).filter fun c ↦ !b.isSystemGroup c.1

theorem nodup_userCursors (b : Bridge) (order : List Nat) (h : Handle) :
    ((b.userCursors order h).map Prod.fst).Nodup := by
  have harranged := (arrange_perm order (b.store.partition h).cursors.toList).map Prod.fst
  exact (harranged.nodup_iff.mpr (nodup_fst_toList _)).sublist (List.filter_sublist.map _)

theorem userCursors_perm (b : Bridge) (order order' : List Nat) (h : Handle) :
    (b.userCursors order h).Perm (b.userCursors order' h) :=
  ((arrange_perm order _).trans (arrange_perm order' _).symm).filter _

/-- What a registration makes of the table. -/
theorem table_register (b : Bridge) (order : List Nat) (h : Handle) :
    (b.register order h).2.2.table = (seedCursors b.table (b.nameOf h)
      (b.userCursors order (b.register order h).1)).2 := rfl

theorem cache_register (b : Bridge) (order : List Nat) (h : Handle) :
    (b.register order h).2.2.cache = (b.cache.insertIfAbsent (b.nameOf h) h).2 := rfl

/-- A registration changes nothing but the table and the cache. -/
theorem register_eq (b : Bridge) (order : List Nat) (h : Handle) :
    (b.register order h).2.2 = { b with
      cache := (b.register order h).2.2.cache, table := (b.register order h).2.2.table } := rfl

theorem userCursors_register (b : Bridge) (order order' : List Nat) (h h' : Handle) :
    (b.register order h).2.2.userCursors order' h' = b.userCursors order' h' := rfl

theorem nameOf_register (b : Bridge) (order : List Nat) (h : Handle) :
    (b.register order h).2.2.nameOf = b.nameOf := rfl

theorem register_fst (b : Bridge) (order : List Nat) (h : Handle) :
    (b.register order h).1 = (b.cache.get? (b.nameOf h)).getD h :=
  Cache.insertIfAbsent_fst

/-- It does not matter in which order the cursors are visited. -/
theorem register_order (b : Bridge) (order order' : List Nat) (h : Handle) :
    (b.register order h).2.2 = (b.register order' h).2.2 := by
  have htable : (b.register order h).2.2.table = (b.register order' h).2.2.table :=
    seedCursors_perm (b.userCursors_perm order order' _) (b.nodup_userCursors order _)
  rw [register_eq, htable]
  rfl

/-- Whatever is registered for another partition does not change which handle is cached. -/
theorem register_fst_of_ne (hne : b.nameOf h ≠ b.nameOf h') :
    ((b.register order h).2.2.register order' h').1 = (b.register order' h').1 := by
  have hkept : (b.register order h).2.2.cache.get? (b.nameOf h') =
      b.cache.get? (b.nameOf h') := by
    rw [cache_register, Cache.get?_insertIfAbsent, if_neg hne.symm, Option.or_none]
  rw [register_fst, register_fst]
  exact congrArg (·.getD h') hkept

/-- Two partitions are registered in either order. -/
theorem register_comm (hne : b.nameOf h ≠ b.nameOf h') :
    ((b.register order h).2.2.register order' h').2.2 =
      ((b.register order' h').2.2.register order h).2.2 := by
  have hfst : ((b.register order h).2.2.register order' h').1 = (b.register order' h').1 :=
    register_fst_of_ne hne
  have hfst' : ((b.register order' h').2.2.register order h).1 = (b.register order h).1 :=
    register_fst_of_ne hne.symm
  have hcache : ((b.register order h).2.2.register order' h').2.2.cache =
      ((b.register order' h').2.2.register order h).2.2.cache := Cache.insertIfAbsent_comm hne
  have htable : ((b.register order h).2.2.register order' h').2.2.table =
      ((b.register order' h').2.2.register order h).2.2.table := by
    rw [table_register, table_register, table_register, table_register, hfst, hfst']
    exact seedCursors_comm hne
  rw [register_eq, hcache, htable]
  rfl

/-- A cursor of a group of users that has an offset is in the table after its registration. -/
theorem isSome_query_register {c : String × Position}
    (hc : c ∈ b.userCursors order' (b.register order h).1)
    (hx : c.2.encode.toOption.isSome) :
    ((b.register order h).2.2.table.query ⟨c.1, (b.nameOf h).topic⟩
      (b.nameOf h).partition).isSome := by
  obtain ⟨hmem, huser⟩ := List.mem_filter.mp hc
  have hcursor : (b.store.partition (b.register order h).1).cursor? c.1 = some c.2 :=
    Std.ExtTreeMap.mem_toList_iff_getElem?_eq_some.mp ((mem_arrange ..).mp hmem)
  have huser : b.isSystemGroup c.1 = false := by simpa using huser
  rw [query_register, ← nameOf, if_pos rfl, huser, if_neg Bool.false_ne_true, hcursor,
    Option.bind_some, Option.isSome_or, hx, Bool.or_true]

/-- To register a partition once more, by whichever handle, changes nothing. -/
theorem register_again (hname : b.nameOf h' = b.nameOf h) :
    ((b.register order h).2.2.register order' h').1 = (b.register order h).1 ∧
      ((b.register order h).2.2.register order' h').2.2 = (b.register order h).2.2 := by
  have hcached : (b.register order h).2.2.cache.get? (b.nameOf h') =
      some (b.register order h).1 := hname ▸ get?_register b order h
  have hfst : ((b.register order h).2.2.register order' h').1 = (b.register order h).1 := by
    rw [register_fst]
    exact congrArg (fun cached ↦ cached.getD h') hcached
  have hcache : ((b.register order h).2.2.register order' h').2.2.cache =
      (b.register order h).2.2.cache :=
    congrArg Prod.snd (Cache.insertIfAbsent_of_some hcached)
  have htable : ((b.register order h).2.2.register order' h').2.2.table =
      (b.register order h).2.2.table := by
    rw [table_register, hfst, userCursors_register]
    refine seedCursors_of_stored fun c hc hx ↦ ?_
    exact nameOf_register b order h ▸ hname ▸ isSome_query_register hc hx
  refine ⟨hfst, ?_⟩
  rw [register_eq, hcache, htable]

/-! ## Several registrations -/

/-- The bridge after several registrations, each with the order in which it visits the cursors. -/
def registerAll (b : Bridge) (hs : List (List Nat × Handle)) : Bridge :=
  hs.foldl (fun b e ↦ (b.register e.1 e.2).2.2) b

theorem registerAll_cons (b : Bridge) (e : List Nat × Handle) (hs : List (List Nat × Handle)) :
    b.registerAll (e :: hs) = (b.register e.1 e.2).2.2.registerAll hs := rfl

theorem registerAll_eq (b : Bridge) (hs : List (List Nat × Handle)) :
    b.registerAll hs = b.registerAll ((hs.map Prod.snd).map ([], ·)) := by
  induction hs generalizing b with
  | nil => rfl
  | cons e hs ih =>
      rw [List.map_cons, List.map_cons, registerAll_cons, registerAll_cons,
        b.register_order e.1 []]
      exact ih _

theorem registerAll_perm {hs hs' : List Handle} (hperm : hs.Perm hs')
    (hnames : (hs.map b.nameOf).Nodup) :
    b.registerAll (hs.map ([], ·)) = b.registerAll (hs'.map ([], ·)) := by
  induction hperm generalizing b with
  | nil => rfl
  | cons h hperm ih =>
      rw [List.map_cons, List.map_cons, registerAll_cons, registerAll_cons]
      refine ih ?_
      rw [nameOf_register]
      exact (List.nodup_cons.mp hnames).2
  | swap h h' hs =>
      have hne : b.nameOf h' ≠ b.nameOf h := fun heq ↦
        (List.nodup_cons.mp hnames).1 (heq ▸ List.mem_cons_self ..)
      simp only [List.map_cons, registerAll_cons]
      rw [register_comm hne]
  | trans hperm hperm' ih ih' =>
      exact (ih hnames).trans (ih' ((hperm.map b.nameOf).nodup_iff.mp hnames))

/-! ## What a registration does -/

/-- What a registration stores for a group. -/
theorem query_register_cases (b : Bridge) (order : List Nat) (h : Handle) (k : GroupTopic)
    (p : Int32) : (b.register order h).2.2.table.query k p = b.table.query k p ∨
      ⟨k.topic, p⟩ = b.nameOf h ∧ b.isSystemGroup k.group = false ∧ b.table.query k p = none ∧
        ∃ x o, (b.store.partition (b.register order h).1).cursor? k.group = some x ∧
          x.encode = .ok o := by
  rw [query_register, ← nameOf]
  cases hq : b.table.query k p with
  | some o => exact .inl Option.some_or
  | none =>
      rw [Option.none_or]
      split
      · rename_i htp
        split
        · exact .inl rfl
        · rename_i huser
          cases hx : (b.store.partition (b.register order h).1).cursor? k.group with
          | none => exact .inl rfl
          | some x =>
              cases ho : x.encode with
              | error e => exact .inl (by rw [Option.bind_some, ho]; rfl)
              | ok o => exact .inr ⟨htp, by simpa using huser, rfl, x, o, rfl, ho⟩
      · exact .inl rfl

/-- **Registration.**  The handle that is cached for a partition stays, and without one the given
one is cached.  Every cursor on the cached handle that belongs to a group of users and has an offset
seeds the table where nothing is stored; no other offset changes, and no regression is counted.  To
register the partition again changes nothing, and several partitions may be registered in any
order, with their cursors visited in any order. -/
theorem registration_seeds_exactly (b : Bridge) (order : List Nat) (h : Handle) :
    let tp := (b.store.partition h).name
    let cached := (b.register order h).1
    let b' := (b.register order h).2.2
    (cached = (b.cache.get? tp).getD h ∧
      ∀ tp', b'.cache.get? tp' = if tp' = tp then some cached else b.cache.get? tp') ∧
    (∀ g x o, b.isSystemGroup g = false → (b.store.partition cached).cursor? g = some x →
      x.encode = .ok o → b.table.query ⟨g, tp.topic⟩ tp.partition = none →
      b'.table.query ⟨g, tp.topic⟩ tp.partition = some o) ∧
    (∀ k p, b'.table.query k p ≠ b.table.query k p →
      ⟨k.topic, p⟩ = tp ∧ b.isSystemGroup k.group = false ∧ b.table.query k p = none ∧
        ∃ x o, (b.store.partition cached).cursor? k.group = some x ∧ x.encode = .ok o) ∧
    b'.table.regressions = b.table.regressions ∧
    (∀ order' h', (b.store.partition h').name = tp →
      (b'.register order' h').1 = cached ∧ (b'.register order' h').2.2 = b') ∧
    ∀ hs hs' : List (List Nat × Handle), (hs.map Prod.snd).Perm (hs'.map Prod.snd) →
      (hs.map fun e ↦ (b.store.partition e.2).name).Nodup →
      b.registerAll hs = b.registerAll hs' := by
  intro tp cached b'
  refine ⟨⟨b.register_fst order h, fun tp' ↦ ?_⟩, fun g x o huser hx ho hnone ↦ ?_,
    fun k p hne ↦ ?_, ?_, fun order' h' hname ↦ register_again hname,
    fun hs hs' hperm hnames ↦ ?_⟩
  · by_cases htp : tp' = tp
    · rw [htp, if_pos rfl]
      exact b.get?_register order h
    · have hne : tp' ≠ b.nameOf h := htp
      rw [if_neg htp, cache_register, Cache.get?_insertIfAbsent, if_neg hne, Option.or_none]
  · rw [query_register, hnone, if_pos rfl, huser, if_neg Bool.false_ne_true, hx, Option.none_or,
      Option.bind_some, ho]
    rfl
  · exact (b.query_register_cases order h k p).resolve_left hne
  · exact regressions_seedCursors
  · have hnames : ((hs.map Prod.snd).map b.nameOf).Nodup := by
      rw [List.map_map]
      exact hnames
    rw [registerAll_eq, registerAll_eq b hs', registerAll_perm hperm hnames]

/-- Cursors that were loaded for two partitions: one of them has no offset, and one belongs to the
system. -/
def mixedCursors : CursorPoints :=
  ((((∅ : CursorPoints).insert ⟨"g", ⟨"t", 0⟩⟩ ⟨1, 5⟩).insert ⟨"bad", ⟨"t", 0⟩⟩ ⟨-1, 0⟩).insert
    ⟨"sys/m", ⟨"t", 0⟩⟩ ⟨2, 0⟩).insert ⟨"h", ⟨"t", 0⟩⟩ ⟨3, 0⟩

/-- Both partitions exist, and one group has committed. -/
def mixed : Bridge :=
  let store := ((Store.new "node" mixedCursors).createPartition ⟨"t", 0⟩).2
  (new ⟨["sys/"], ⟨1, 1, 10, 3⟩, 100⟩ (store.createPartition ⟨"t", 1⟩).2 none).commit ⟨"h", "t"⟩ 0 9

theorem mixed_cursors_seed :
    let b' := (mixed.register [2, 1] ⟨0, none⟩).2.2
    b'.table.query ⟨"g", "t"⟩ 0 = some 268435461 ∧ b'.table.query ⟨"bad", "t"⟩ 0 = none ∧
      b'.table.query ⟨"sys/m", "t"⟩ 0 = none ∧ b'.table.query ⟨"h", "t"⟩ 0 = some 9 ∧
      (b'.register [] ⟨0, none⟩).2.2 = b' ∧
      mixed.registerAll [([1], ⟨0, none⟩), ([], ⟨1, none⟩)] =
        mixed.registerAll [([], ⟨1, none⟩), ([], ⟨0, none⟩)] := by
  intro b'
  obtain ⟨-, hseeds, hkeeps, -, hagain, horder⟩ :=
    registration_seeds_exactly mixed [2, 1] ⟨0, none⟩
  have hcursor : (mixed.store.partition (mixed.register [2, 1] ⟨0, none⟩).1).cursor? "g" =
      some ⟨1, 5⟩ := by decide +kernel
  have hbad : ¬∃ x o, (mixed.store.partition (mixed.register [2, 1] ⟨0, none⟩).1).cursor? "bad" =
      some x ∧ x.encode = .ok o := by
    have hx : (mixed.store.partition (mixed.register [2, 1] ⟨0, none⟩).1).cursor? "bad" =
        some ⟨-1, 0⟩ := by decide +kernel
    rintro ⟨x, o, hx', ho⟩
    cases hx.symm.trans hx'
    cases ho
  have hbad' : b'.table.query ⟨"bad", "t"⟩ 0 = mixed.table.query ⟨"bad", "t"⟩ 0 := by
    by_contra hne
    exact hbad (hkeeps _ _ hne).2.2.2
  have hsystem : b'.table.query ⟨"sys/m", "t"⟩ 0 = mixed.table.query ⟨"sys/m", "t"⟩ 0 := by
    by_contra hne
    exact absurd (hkeeps _ _ hne).2.1 (by decide +kernel)
  have hcommitted : b'.table.query ⟨"h", "t"⟩ 0 = mixed.table.query ⟨"h", "t"⟩ 0 := by
    by_contra hne
    exact absurd (hkeeps _ _ hne).2.2.1 (by decide +kernel)
  have hsame : (b'.register [] ⟨0, none⟩).2.2 = b' := by
    have hb' : b' = (mixed.register [2, 1] ⟨0, none⟩).2.2 := rfl
    rw [hb']
    exact (hagain [] ⟨0, none⟩ rfl).2
  exact ⟨hseeds "g" ⟨1, 5⟩ 268435461 (by decide +kernel) hcursor rfl (by decide +kernel),
    hbad'.trans (by decide +kernel), hsystem.trans (by decide +kernel),
    hcommitted.trans (by decide +kernel), hsame,
    horder _ _ (.swap ..) (by decide +kernel)⟩

end Bridge

end GroupOffsets
