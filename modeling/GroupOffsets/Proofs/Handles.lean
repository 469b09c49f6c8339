import GroupOffsets.Proofs.Cache
import GroupOffsets.Proofs.Nested

/-!
# Handles by topic

The cache keeps the handles of a topic in a map of their own, which is made when the first of them
is cached and must go when the last one is dropped.  It does, whatever is done to the cache; and so
the listing of a topic, its count and what an invalidation returns are all about the handles on its
partitions.
-/

namespace GroupOffsets

/-- What changes the cache. -/
inductive Cache.Change where
  | insertIfAbsent (tp : TopicPartition) (h : Handle)
  /-- A lookup that began in some generation has found a handle. -/
  | insertResolved (tp : TopicPartition) (h : Handle) (generation : Nat)
  | refresh (tp : TopicPartition) (h : Handle)
  | invalidate (tp : TopicPartition)
  | invalidateTopic (topic : String)

namespace Cache

variable {c : Cache} {tp : TopicPartition} {h : Handle} {t t' : String} {p : Int32} {g : Nat}

/-- The cache after a change. -/
def change (c : Cache) : Change → Cache
  | .insertIfAbsent tp h => (c.insertIfAbsent tp h).2
  | .insertResolved tp h generation => (c.insertResolved tp h generation).2
  | .refresh tp h => c.refresh tp h
  | .invalidate tp => (c.invalidate tp).2
  | .invalidateTopic topic => (c.invalidateTopic topic).2

/-- The cache after several changes. -/
def changes (c : Cache) (cs : List Change) : Cache := cs.foldl change c

/-! ## No topic without handles -/

theorem tight_refresh (hc : Tight c.handles) : Tight (c.refresh tp h).handles :=
  hc.insert Std.ExtTreeMap.insert_ne_empty

theorem tight_insertIfAbsent (hc : Tight c.handles) : Tight (c.insertIfAbsent tp h).2.handles := by
  rw [insertIfAbsent]
  split
  · exact hc
  · exact tight_refresh hc

theorem tight_insertResolved (hc : Tight c.handles) :
    Tight (c.insertResolved tp h g).2.handles := by
  rw [insertResolved]
  split
  · exact tight_insertIfAbsent hc
  · exact hc

/-- A topic goes with its last handle. -/
theorem tight_invalidate (hc : Tight c.handles) : Tight (c.invalidate tp).2.handles := by
  simp only [invalidate]
  split
  · exact hc.erase
  · rename_i hrest
    exact hc.insert fun hempty ↦ hrest (Std.ExtTreeMap.isEmpty_iff.mpr hempty)

theorem tight_change (hc : Tight c.handles) (e : Change) : Tight (c.change e).handles := by
  cases e with
  | insertIfAbsent tp h => exact tight_insertIfAbsent hc
  | insertResolved tp h generation => exact tight_insertResolved hc
  | refresh tp h => exact tight_refresh hc
  | invalidate tp => exact tight_invalidate hc
  | invalidateTopic topic => exact hc.erase

theorem tight_changes (hc : Tight c.handles) (cs : List Change) :
    Tight (c.changes cs).handles := by
  induction cs generalizing c with
  | nil => exact hc
  | cons e cs ih => exact ih (tight_change hc e)

/-! ## What is listed -/

theorem mem_cachedPartitions : p ∈ c.cachedPartitions t ↔ (c.get? ⟨t, p⟩).isSome := by
  rw [cachedPartitions, Std.ExtTreeMap.mem_keys, Std.ExtTreeMap.mem_iff_isSome_getElem?]
  rfl

theorem pairwise_cachedPartitions : (c.cachedPartitions t).Pairwise (· < ·) :=
  (c.topic t).ordered_keys.imp Std.compare_eq_lt.mp

/-! ## What an invalidation leaves -/

theorem invalidateTopic_fst : (c.invalidateTopic t).1 = (c.cachedPartitions t).length :=
  Std.ExtTreeMap.length_keys.symm

theorem handles_invalidateTopic : (c.invalidateTopic t).2.handles[t']? =
    if t' = t then none else c.handles[t']? := by
  by_cases ht : t' = t
  · simp [invalidateTopic, ht]
  · have hne : t ≠ t' := fun h ↦ ht h.symm
    simp [invalidateTopic, Std.ExtTreeMap.getElem?_erase, ht, hne]

/-- **Handles by topic.**  Whatever was inserted, found, refreshed and invalidated, no topic is
cached without a handle; the partitions that are listed for a topic are those with a handle, in
ascending order; the invalidation of a partition returns its handle and changes no other one; and
that of a topic returns how many partitions were listed for it and changes no other topic. -/
theorem listing_follows_handles (cs : List Change) :
    let c := (∅ : Cache).changes cs
    (∀ t : String, c.handles[t]? ≠ some ∅) ∧
    (∀ t, (c.cachedPartitions t).Pairwise (· < ·) ∧
      ∀ p, p ∈ c.cachedPartitions t ↔ (c.get? ⟨t, p⟩).isSome) ∧
    (∀ tp, (c.invalidate tp).1 = c.get? tp ∧
      ∀ tp', (c.invalidate tp).2.get? tp' = if tp' = tp then none else c.get? tp') ∧
    ∀ t, (c.invalidateTopic t).1 = (c.cachedPartitions t).length ∧
      ∀ t' : String,
        (c.invalidateTopic t).2.handles[t']? = (if t' = t then none else c.handles[t']?) ∧
        (c.invalidateTopic t).2.generation t' =
          if t' = t then c.generation t' + 1 else c.generation t' := by
  intro c
  have htight : Tight c.handles := tight_changes tight_empty cs
  exact ⟨htight, fun t ↦ ⟨pairwise_cachedPartitions, fun p ↦ mem_cachedPartitions⟩,
    fun tp ↦ ⟨rfl, fun tp' ↦ get?_invalidate⟩,
    fun t ↦ ⟨invalidateTopic_fst, fun t' ↦ ⟨handles_invalidateTopic, generation_invalidateTopic⟩⟩⟩

end Cache

end GroupOffsets
