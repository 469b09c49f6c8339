import GroupOffsets.Bridge
import GroupOffsets.Proofs.Cache
import GroupOffsets.Proofs.Entries
import GroupOffsets.Proofs.Store

/-!
# Bringing a bridge up

Partitions are created in the store and then registered, in any order.  A cursor that was loaded
goes to its partition when that is created, and its offset to the table when it is registered:
`Bridge.Opened` says what stands where at any moment, given the cursors that were loaded.
-/

namespace GroupOffsets

/-! ## Seeding -/

namespace Bridge

variable {t : OffsetTable} {k : GroupTopic} {p : Int32} {tp : TopicPartition}
variable {cs : List (String × Position)}

/-- The offset that a cursor gives to a group. -/
def seedOf (g : String) (c : String × Position) : Option Offset :=
  if c.1 = g then c.2.encode.toOption else none

/-- The table after a cursor was taken into account. -/
theorem seedCursor_snd (g : String) (x : Position) : (seedCursor t tp g x).2 =
    match x.encode with
    | .error _ => t
    | .ok o => (t.seedIfAbsent ⟨g, tp.topic⟩ tp.partition o).2 := by
  rw [seedCursor]
  cases x.encode with
  | error e => rfl
  | ok o =>
      dsimp only
      split
      · rename_i t' heq
        rw [heq]
      · rename_i t' heq
        rw [heq]

theorem query_seedCursor (g : String) (x : Position) : (seedCursor t tp g x).2.query k p =
    (t.query k p).or
      (if (⟨k.topic, p⟩ : TopicPartition) = tp then seedOf k.group (g, x) else none) := by
  rw [seedCursor_snd]
  cases he : x.encode with
  | error e => simp [seedOf, he, Except.toOption]
  | ok o =>
      have hiff : k = ⟨g, tp.topic⟩ ∧ p = tp.partition ↔
          (⟨k.topic, p⟩ : TopicPartition) = tp ∧ g = k.group := by
        obtain ⟨g', t'⟩ := k
        obtain ⟨t'', p''⟩ := tp
        simp only [GroupTopic.mk.injEq, TopicPartition.mk.injEq]
        constructor
        · rintro ⟨⟨rfl, rfl⟩, rfl⟩
          exact ⟨⟨rfl, rfl⟩, rfl⟩
        · rintro ⟨⟨rfl, rfl⟩, rfl⟩
          exact ⟨⟨rfl, rfl⟩, rfl⟩
      simp only [OffsetTable.query_seedIfAbsent, hiff, seedOf, he, Except.toOption, ite_and]

/-- Of the cursors of a group the first one that has an offset seeds it. -/
theorem query_seedCursors : (seedCursors t tp cs).2.query k p =
    (t.query k p).or (if (⟨k.topic, p⟩ : TopicPartition) = tp then cs.findSome? (seedOf k.group)
      else none) := by
  induction cs generalizing t with
  | nil => simp [seedCursors]
  | cons c cs ih =>
      obtain ⟨g, x⟩ := c
      rw [seedCursors]
      dsimp only
      rw [ih, query_seedCursor, Option.or_assoc, List.findSome?_cons]
      split
      · cases seedOf k.group (g, x) <;> simp
      · simp

/-- A group without a cursor gets no entry. -/
theorem partitions_seedCursors (h : ∀ c ∈ cs, c.1 ≠ k.group) :
    (seedCursors t tp cs).2.partitions k = t.partitions k := by
  induction cs generalizing t with
  | nil => rfl
  | cons c cs ih =>
      obtain ⟨g, x⟩ := c
      obtain ⟨hg, hcs⟩ := List.forall_mem_cons.mp h
      rw [seedCursors]
      dsimp only
      rw [ih hcs, seedCursor_snd]
      cases x.encode with
      | error e => rfl
      | ok o =>
          have hne : k ≠ ⟨g, tp.topic⟩ := fun hk ↦ hg (hk ▸ rfl)
          simp only [OffsetTable.seedIfAbsent]
          split
          · rfl
          · rw [OffsetTable.partitions_put, if_neg hne]

/-- Seeding is not counted as a rewind. -/
theorem regressions_seedCursors : (seedCursors t tp cs).2.regressions = t.regressions := by
  induction cs generalizing t with
  | nil => rfl
  | cons c cs ih =>
      rw [seedCursors]
      dsimp only
      rw [ih, seedCursor_snd]
      split
      · rfl
      · simp only [OffsetTable.seedIfAbsent]
        split <;> rfl

/-- In whatever order the cursors of a partition come, a group has only one. -/
theorem findSome?_seedOf {cursors : Std.ExtTreeMap String Position} {cs : List (String × Position)}
    (hperm : cs.Perm cursors.toList) (isSystem : String → Bool) (g : String) :
    (cs.filter fun c ↦ !isSystem c.1).findSome? (seedOf g) =
      if isSystem g then none else cursors[g]?.bind fun x : Position ↦ x.encode.toOption := by
  have hkey : ∀ {c}, c ∈ cs → c.1 = g → cursors[g]? = some c.2 := by
    rintro ⟨g', x⟩ hc rfl
    exact Std.ExtTreeMap.mem_toList_iff_getElem?_eq_some.mp (hperm.mem_iff.mp hc)
  cases hf : (cs.filter fun c ↦ !isSystem c.1).findSome? (seedOf g) with
  | some o =>
      obtain ⟨c, hc, ho⟩ := List.exists_of_findSome?_eq_some hf
      obtain ⟨hmem, hsystem⟩ := List.mem_filter.mp hc
      rw [seedOf] at ho
      split at ho
      · rename_i hg
        have hsystem : isSystem g = false := by simpa [hg] using hsystem
        simp [hsystem, hkey hmem hg, ho]
      · cases ho
  | none =>
      rw [List.findSome?_eq_none_iff] at hf
      split
      · rfl
      · rename_i hsystem
        cases hx : cursors[g]? with
        | none => rfl
        | some x =>
            have hmem : (g, x) ∈ cs :=
              hperm.mem_iff.mpr (Std.ExtTreeMap.mem_toList_iff_getElem?_eq_some.mpr hx)
            have hnone := hf (g, x) (List.mem_filter.mpr ⟨hmem, by simpa using hsystem⟩)
            simpa [seedOf] using hnone.symm

/-! ## Opening -/

end Bridge

/-- A step of bringing a bridge up. -/
inductive Opening where
  | create (tp : TopicPartition)
  /-- Registers a partition that exists; its cursors are visited in some order. -/
  | register (order : List Nat) (tp : TopicPartition)

namespace Opening

/-- The partition that a step is about. -/
def target : Opening → TopicPartition
  | create tp | register _ tp => tp

/-- Steps that create and then register every one of some partitions, and touch no other. -/
structure Serves (served : List TopicPartition) (ops : List Opening) : Prop where
  only : ∀ op ∈ ops, op.target ∈ served
  all : ∀ tp ∈ served, ∃ before order after,
    ops = before ++ .register order tp :: after ∧ .create tp ∈ before

end Opening

namespace Bridge

/-- Puts a step of bringing up through. -/
def opening (b : Bridge) : Opening → Bridge
  | .create tp => { b with store := (b.store.createPartition tp).2 }
  | .register order tp =>
    match b.store.object? tp with
    | none => b
    | some n => (b.register order ⟨n, none⟩).2.2

/-- Brings a bridge up. -/
def openUp (b : Bridge) (ops : List Opening) : Bridge := ops.foldl opening b

variable {b : Bridge} {points : CursorPoints} {tp tp' : TopicPartition} {n : Nat}

/-- How far a bridge over loaded cursors has been brought up: the cursors on partitions that exist
are attached, the others still wait, and of those on registered partitions the table has the
offsets. -/
structure Opened (points : CursorPoints) (b : Bridge) : Prop where
  tidy : b.store.Tidy
  cursors : ∀ tp g, b.store.cursorOf tp g =
    if (b.store.object? tp).isSome then points[(⟨g, tp⟩ : CursorKey)]? else none
  pending : ∀ k : CursorKey, b.store.pending[k]? =
    if (b.store.object? k.on).isSome then none else points[k]?
  cached : ∀ {tp h}, b.cache.get? tp = some h → ∃ n, b.store.object? tp = some n ∧ h = ⟨n, none⟩
  seeded : ∀ (k : GroupTopic) (p : Int32), b.table.query k p =
    if (b.cache.get? ⟨k.topic, p⟩).isSome && !b.isSystemGroup k.group then
      (points[(⟨k.group, ⟨k.topic, p⟩⟩ : CursorKey)]?).bind fun x ↦ x.encode.toOption
    else none
  quiet : b.flights = ∅ ∧ b.aloft = ∅

theorem opened_new (settings : Settings) (owner : String) (points : CursorPoints)
    (clock : Option Nat) : (new settings (.new owner points) clock).Opened points where
  tidy := Store.tidy_new owner points
  cursors tp g := by simp [new, Store.cursorOf, Store.object?, Store.new]
  pending k := by simp [new, Store.object?, Store.new]
  cached h := by simp [new] at h
  seeded k p := by simp [new]
  quiet := ⟨rfl, rfl⟩

theorem Opened.create (h : b.Opened points) (tp : TopicPartition) :
    (b.opening (.create tp)).Opened points where
  tidy := h.tidy.createPartition tp
  cursors tp' g := by
    simp only [opening, Store.cursorOf_createPartition h.tidy, Store.object?_createPartition,
      h.cursors, h.pending]
    by_cases htp : tp' = tp
    · subst htp
      cases b.store.object? tp' <;> simp
    · simp [htp]
  pending k := by
    simp only [opening, Store.pending_createPartition, Store.object?_createPartition, h.pending]
    by_cases htp : k.on = tp <;> simp [htp]
  cached := by
    intro tp' hd hget
    obtain ⟨n, hn, rfl⟩ := h.cached hget
    simp only [opening, Store.object?_createPartition]
    by_cases htp : tp' = tp
    · subst htp
      exact ⟨n, by simp [Store.ensure_of_some hn], rfl⟩
    · exact ⟨n, by simp [htp, hn], rfl⟩
  seeded := h.seeded
  quiet := h.quiet

/-- What registering the object of an existing partition makes of a bridge. -/
theorem Opened.register_eq (h : b.Opened points) (order : List Nat)
    (hn : b.store.object? tp = some n) :
    ∃ table cache, (b.register order ⟨n, none⟩).2.2 = { b with table, cache } ∧
      (∀ tp', cache.get? tp' = if tp' = tp then some ⟨n, none⟩ else b.cache.get? tp') ∧
      ∀ k p, table.query k p = (b.table.query k p).or
        (if (⟨k.topic, p⟩ : TopicPartition) = tp then
          if b.isSystemGroup k.group then none
          else (b.store.cursorOf tp k.group).bind fun x : Position ↦ x.encode.toOption
        else none) := by
  have hname : (b.store.partition ⟨n, none⟩).name = tp := h.tidy.named hn
  have hinsert : ∃ cache, b.cache.insertIfAbsent tp ⟨n, none⟩ = (⟨n, none⟩, cache) ∧
      ∀ tp', cache.get? tp' = if tp' = tp then some ⟨n, none⟩ else b.cache.get? tp' := by
    cases hget : b.cache.get? tp with
    | none => exact ⟨_, Cache.insertIfAbsent_of_none hget, fun tp' ↦ Cache.get?_refresh⟩
    | some hd =>
        obtain ⟨m, hm, rfl⟩ := h.cached hget
        cases hn.symm.trans hm
        refine ⟨_, Cache.insertIfAbsent_of_some hget, fun tp' ↦ ?_⟩
        by_cases htp : tp' = tp <;> simp [htp, hget]
  obtain ⟨cache, hinsert, hcache⟩ := hinsert
  refine ⟨(seedCursors b.table tp ((arrange order (b.store.object n).cursors.toList).filter
    fun c ↦ !b.isSystemGroup c.1)).2, cache, ?_, hcache, fun k p ↦ ?_⟩
  · simp only [register, hname, hinsert]
    rfl
  · rw [query_seedCursors, findSome?_seedOf (arrange_perm order _), Store.cursorOf, hn]
    rfl

theorem Opened.register (h : b.Opened points) (order : List Nat) (tp : TopicPartition) :
    (b.opening (.register order tp)).Opened points := by
  cases hn : b.store.object? tp with
  | none =>
      have hb : b.opening (.register order tp) = b := by simp only [opening, hn]
      rwa [hb]
  | some n =>
      obtain ⟨table, cache, hb, hcache, htable⟩ := h.register_eq order hn
      have hb : b.opening (.register order tp) = { b with table, cache } := by
        simp only [opening, hn, hb]
      rw [hb]
      refine ⟨h.tidy, h.cursors, h.pending, ?_, ?_, h.quiet⟩
      · intro tp' hd hget
        have hget : cache.get? tp' = some hd := hget
        rw [hcache] at hget
        split at hget
        · rename_i htp
          cases hget
          exact ⟨n, htp ▸ hn, rfl⟩
        · exact h.cached hget
      · intro k p
        have hsystem : ({ b with table, cache } : Bridge).isSystemGroup k.group =
            b.isSystemGroup k.group := rfl
        rw [hsystem, htable, hcache, h.seeded, h.cursors]
        by_cases htp : (⟨k.topic, p⟩ : TopicPartition) = tp
        · subst htp
          cases b.isSystemGroup k.group <;> cases b.cache.get? ⟨k.topic, p⟩ <;> simp [hn]
        · simp [htp]

theorem opened_openUp (h : b.Opened points) (ops : List Opening) :
    (b.openUp ops).Opened points := by
  induction ops generalizing b with
  | nil => exact h
  | cons op ops ih =>
      cases op with
      | create tp => exact ih (h.create tp)
      | register order tp => exact ih (h.register order tp)

/-! ## What is open in the end -/

theorem openUp_append (ops ops' : List Opening) :
    b.openUp (ops ++ ops') = (b.openUp ops).openUp ops' := List.foldl_append

/-- What bringing a bridge up can change. -/
theorem openUp_eq (ops : List Opening) :
    ∃ store cache table, b.openUp ops = { b with store, cache, table } := by
  induction ops generalizing b with
  | nil => exact ⟨_, _, _, rfl⟩
  | cons op ops ih =>
      have hop : ∃ store cache table, b.opening op = { b with store, cache, table } := by
        cases op with
        | create tp => exact ⟨_, _, _, rfl⟩
        | register order tp =>
            rw [opening]
            split
            · exact ⟨_, _, _, rfl⟩
            · exact ⟨_, _, _, rfl⟩
      obtain ⟨_, _, _, hb⟩ := hop
      obtain ⟨store, cache, table, hb'⟩ := ih (b := b.opening op)
      refine ⟨store, cache, table, hb'.trans ?_⟩
      rw [hb]

theorem settings_openUp (ops : List Opening) : (b.openUp ops).settings = b.settings := by
  obtain ⟨_, _, _, hb⟩ := b.openUp_eq ops
  rw [hb]

/-- Groups of the system get no entry. -/
theorem partitions_openUp_of_system {k : GroupTopic} (hk : b.isSystemGroup k.group = true)
    (ops : List Opening) : (b.openUp ops).table.partitions k = b.table.partitions k := by
  induction ops generalizing b with
  | nil => rfl
  | cons op ops ih =>
      have hsystem : (b.opening op).isSystemGroup k.group = true := by
        have hsettings : (b.opening op).settings = b.settings := settings_openUp [op]
        rwa [isSystemGroup, hsettings]
      refine (ih hsystem).trans ?_
      cases op with
      | create tp => rfl
      | register order tp =>
          rw [opening]
          split
          · rfl
          · refine partitions_seedCursors fun c hc hg ↦ ?_
            have huser : b.isSystemGroup c.1 = false := by simpa using (List.mem_filter.mp hc).2
            rw [hg, hk] at huser
            cases huser

/-- No step takes a partition away, or out of the cache. -/
theorem Opened.mono (h : b.Opened points) (op : Opening) (tp : TopicPartition) :
    ((b.store.object? tp).isSome → ((b.opening op).store.object? tp).isSome) ∧
      ((b.cache.get? tp).isSome → ((b.opening op).cache.get? tp).isSome) := by
  cases op with
  | create tp' =>
      refine ⟨fun ho ↦ ?_, id⟩
      simp only [opening, Store.object?_createPartition]
      split
      · rfl
      · exact ho
  | register order tp' =>
      cases hn : b.store.object? tp' with
      | none =>
          simp only [opening, hn]
          exact ⟨id, id⟩
      | some n =>
          obtain ⟨table, cache, hb, hcache, -⟩ := h.register_eq order hn
          simp only [opening, hn, hb]
          refine ⟨id, fun hc ↦ ?_⟩
          rw [hcache]
          split
          · rfl
          · exact hc

theorem Opened.mono_openUp (h : b.Opened points) (ops : List Opening) :
    ((b.store.object? tp).isSome → ((b.openUp ops).store.object? tp).isSome) ∧
      ((b.cache.get? tp).isSome → ((b.openUp ops).cache.get? tp).isSome) := by
  induction ops generalizing b with
  | nil => exact ⟨id, id⟩
  | cons op ops ih =>
      obtain ⟨hobject, hcache⟩ := h.mono op tp
      obtain ⟨hobject', hcache'⟩ := ih (opened_openUp h [op])
      exact ⟨hobject' ∘ hobject, hcache' ∘ hcache⟩

theorem create_mem_of_openUp (ops : List Opening) (h : ((b.openUp ops).store.object? tp).isSome) :
    (b.store.object? tp).isSome ∨ .create tp ∈ ops := by
  induction ops generalizing b with
  | nil => exact .inl h
  | cons op ops ih =>
      rcases ih (b := b.opening op) h with ho | hmem
      · cases op with
        | create tp' =>
            simp only [opening, Store.object?_createPartition] at ho
            split at ho
            · rename_i htp
              exact .inr (htp ▸ List.mem_cons_self ..)
            · exact .inl ho
        | register order tp' =>
            rw [opening] at ho
            split at ho <;> exact .inl ho
      · exact .inr (List.mem_cons_of_mem _ hmem)

/-- Only the partitions that are brought up exist in the end, and all of them are cached. -/
theorem Opened.serves {served : List TopicPartition} {ops : List Opening} (h : b.Opened points)
    (hnone : ∀ tp, b.store.object? tp = none) (hops : Opening.Serves served ops)
    (tp : TopicPartition) :
    (((b.openUp ops).store.object? tp).isSome ↔ tp ∈ served) ∧
      (((b.openUp ops).cache.get? tp).isSome ↔ tp ∈ served) := by
  have hexists : ((b.openUp ops).store.object? tp).isSome → tp ∈ served := by
    intro ho
    rcases create_mem_of_openUp ops ho with ho | hmem
    · simp [hnone] at ho
    · exact hops.only _ hmem
  have hobject : ((b.openUp ops).cache.get? tp).isSome →
      ((b.openUp ops).store.object? tp).isSome := by
    intro hc
    obtain ⟨hd, hget⟩ := Option.isSome_iff_exists.mp hc
    obtain ⟨n, hn, -⟩ := (opened_openUp h ops).cached hget
    simp [hn]
  have hcached : tp ∈ served → ((b.openUp ops).cache.get? tp).isSome := by
    intro htp
    obtain ⟨before, order, after, rfl, hcreate⟩ := hops.all tp htp
    obtain ⟨early, late, rfl⟩ := List.append_of_mem hcreate
    have hearly := opened_openUp h early
    have hcreated : ((b.openUp (early ++ .create tp :: late)).store.object? tp).isSome := by
      rw [openUp_append]
      refine ((hearly.create tp).mono_openUp late).1 ?_
      simp [opening, Store.object?_createPartition]
    obtain ⟨n, hn⟩ := Option.isSome_iff_exists.mp hcreated
    have hbefore := opened_openUp h (early ++ .create tp :: late)
    obtain ⟨table, cache, hb, hcache, -⟩ := hbefore.register_eq order hn
    rw [openUp_append]
    refine ((hbefore.register order tp).mono_openUp after).2 ?_
    simp [opening, hn, hb, hcache]
  exact ⟨⟨hexists, fun htp ↦ hobject (hcached htp)⟩, ⟨fun hc ↦ hexists (hobject hc), hcached⟩⟩

end Bridge

end GroupOffsets
