import GroupOffsets.Cache

/-!
# What is cached

What each operation of the cache does to the handle on a partition and to the generation of a topic.
-/

namespace GroupOffsets

namespace Cache

variable {c : Cache} {tp tp' : TopicPartition} {h h' cached : Handle} {t t' : String} {g : Nat}

@[simp] theorem get?_empty : (∅ : Cache).get? tp = none := by
  have hhandles : (∅ : Cache).handles = ∅ := rfl
  simp [get?, topic, hhandles]

/-! ## Putting handles in -/

theorem get?_refresh : (c.refresh tp h).get? tp' = if tp' = tp then some h else c.get? tp' := by
  obtain ⟨t, p⟩ := tp
  obtain ⟨t', p'⟩ := tp'
  by_cases ht : t' = t
  · subst ht
    by_cases hp : p' = p
    · simp [refresh, get?, topic, hp]
    · have hne : p ≠ p' := fun h ↦ hp h.symm
      simp [refresh, get?, topic, hp, hne, Std.ExtTreeMap.getElem?_insert]
  · have hne : t ≠ t' := fun h ↦ ht h.symm
    simp [refresh, get?, topic, ht, hne, Std.ExtTreeMap.getElem?_insert]

theorem insertIfAbsent_of_some (hc : c.get? tp = some cached) :
    c.insertIfAbsent tp h = (cached, c) := by
  rw [insertIfAbsent, hc]

theorem insertIfAbsent_of_none (hc : c.get? tp = none) :
    c.insertIfAbsent tp h = (h, c.refresh tp h) := by
  rw [insertIfAbsent, hc]

/-- The first handle stays. -/
theorem get?_insertIfAbsent (c : Cache) (tp : TopicPartition) (h : Handle) :
    (c.insertIfAbsent tp h).2.get? tp' = (c.get? tp').or (if tp' = tp then some h else none) := by
  cases hc : c.get? tp with
  | some cached =>
      rw [insertIfAbsent_of_some hc]
      by_cases htp : tp' = tp
      · simp [htp, hc]
      · simp [htp]
  | none =>
      rw [insertIfAbsent_of_none hc, get?_refresh]
      by_cases htp : tp' = tp
      · simp [htp, hc]
      · simp [htp]

/-- Whoever puts a handle in is told which one is cached then. -/
theorem get?_insertIfAbsent_self (c : Cache) (tp : TopicPartition) (h : Handle) :
    (c.insertIfAbsent tp h).2.get? tp = some (c.insertIfAbsent tp h).1 := by
  cases hc : c.get? tp with
  | some cached => rw [insertIfAbsent_of_some hc, hc]
  | none => rw [insertIfAbsent_of_none hc, get?_refresh, if_pos rfl]

theorem insertResolved_of_eq (hg : c.generation tp.topic = g) :
    c.insertResolved tp h g = c.insertIfAbsent tp h := by
  rw [insertResolved, if_pos hg]

theorem insertResolved_of_ne (hg : c.generation tp.topic ≠ g) :
    c.insertResolved tp h g = (h, c) := by
  rw [insertResolved, if_neg hg]

theorem get?_refresh_cases (hget : (c.refresh tp h).get? tp' = some h') :
    c.get? tp' = some h' ∨ tp' = tp ∧ h' = h := by
  rw [get?_refresh] at hget
  split at hget
  · exact .inr ⟨‹_›, (Option.some.inj hget).symm⟩
  · exact .inl hget

theorem get?_insertIfAbsent_cases (hget : (c.insertIfAbsent tp h).2.get? tp' = some h') :
    c.get? tp' = some h' ∨ tp' = tp ∧ h' = h := by
  rw [insertIfAbsent] at hget
  split at hget
  · exact .inl hget
  · exact get?_refresh_cases hget

/-- A resolution caches at most what it found, and passes that on or what was cached. -/
theorem insertResolved_cases (c : Cache) (tp : TopicPartition) (h : Handle) (g : Nat) :
    (∀ tp' h', (c.insertResolved tp h g).2.get? tp' = some h' →
      c.get? tp' = some h' ∨ tp' = tp ∧ h' = h) ∧
    (c.get? tp = some (c.insertResolved tp h g).1 ∨ (c.insertResolved tp h g).1 = h) := by
  by_cases hg : c.generation tp.topic = g
  · rw [insertResolved_of_eq hg]
    refine ⟨fun tp' h' ↦ get?_insertIfAbsent_cases, ?_⟩
    cases hc : c.get? tp with
    | some cached =>
        rw [insertIfAbsent_of_some hc]
        exact .inl rfl
    | none =>
        rw [insertIfAbsent_of_none hc]
        exact .inr rfl
  · rw [insertResolved_of_ne hg]
    exact ⟨fun tp' h' ↦ .inl, .inr rfl⟩

/-! ## Throwing handles out -/

@[simp] theorem get?_bump : (c.bump t).get? tp = c.get? tp := rfl

theorem get?_invalidate :
    (c.invalidate tp).2.get? tp' = if tp' = tp then none else c.get? tp' := by
  obtain ⟨t, p⟩ := tp
  obtain ⟨t', p'⟩ := tp'
  rw [invalidate]
  by_cases ht : t' = t
  · subst ht
    dsimp only
    split
    · rename_i hempty
      have herased : ((c.topic t').erase p)[p']? = none := by
        rw [Std.ExtTreeMap.isEmpty_iff.mp hempty]
        exact Std.ExtTreeMap.getElem?_empty
      by_cases hp : p' = p
      · simp [get?, topic, hp]
      · have hne : p ≠ p' := fun h ↦ hp h.symm
        rw [Std.ExtTreeMap.getElem?_erase, if_neg (by simpa using hne)] at herased
        have hnone : c.get? ⟨t', p'⟩ = none := herased
        rw [if_neg (by simpa using hp), hnone]
        simp [get?, topic]
    · by_cases hp : p' = p
      · simp [get?, topic, hp]
      · have hne : p ≠ p' := fun h ↦ hp h.symm
        simp [get?, topic, hp, hne, Std.ExtTreeMap.getElem?_erase]
  · have hne : t ≠ t' := fun h ↦ ht h.symm
    dsimp only
    split <;> simp [get?, topic, ht, hne, Std.ExtTreeMap.getElem?_insert,
      Std.ExtTreeMap.getElem?_erase]

theorem get?_invalidateTopic :
    (c.invalidateTopic t).2.get? tp = if tp.topic = t then none else c.get? tp := by
  by_cases ht : tp.topic = t
  · simp [invalidateTopic, get?, topic, ht]
  · have hne : t ≠ tp.topic := fun h ↦ ht h.symm
    simp [invalidateTopic, get?, topic, ht, hne, bump, Std.ExtTreeMap.getElem?_erase]

/-! ## Generations -/

@[simp] theorem generation_refresh : (c.refresh tp h).generation t = c.generation t := rfl

@[simp] theorem generation_insertIfAbsent :
    (c.insertIfAbsent tp h).2.generation t = c.generation t := by
  rw [insertIfAbsent]
  split <;> rfl

theorem generation_bump : (c.bump t).generation t' =
    if t' = t then c.generation t' + 1 else c.generation t' := by
  by_cases ht : t' = t
  · simp [bump, generation, ht]
  · have hne : t ≠ t' := fun h ↦ ht h.symm
    simp [bump, generation, ht, hne, Std.ExtTreeMap.getElem?_insert]

theorem generation_invalidate : (c.invalidate tp).2.generation t =
    if t = tp.topic then c.generation t + 1 else c.generation t := generation_bump

theorem generation_invalidateTopic : (c.invalidateTopic t').2.generation t =
    if t = t' then c.generation t + 1 else c.generation t := generation_bump

end Cache

end GroupOffsets
