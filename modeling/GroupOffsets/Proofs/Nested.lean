import Std.Data.ExtTreeMap

/-!
# Maps of maps

The offset table and the partition cache are maps whose values are maps.  Such a map is tight if
none of the inner maps is empty: then it has a key just where something is stored behind that key.
-/

namespace GroupOffsets

variable {κ ι ν : Type} {cmp : κ → κ → Ordering} {cmp' : ι → ι → Ordering}
variable [Std.TransCmp cmp]
variable {m m' : Std.ExtTreeMap κ (Std.ExtTreeMap ι ν cmp') cmp} {inner : Std.ExtTreeMap ι ν cmp'}
variable {k : κ}

/-- No inner map is empty. -/
def Tight (m : Std.ExtTreeMap κ (Std.ExtTreeMap ι ν cmp') cmp) : Prop := ∀ k : κ, m[k]? ≠ some ∅

theorem tight_empty : Tight (∅ : Std.ExtTreeMap κ (Std.ExtTreeMap ι ν cmp') cmp) := by
  intro k h
  rw [Std.ExtTreeMap.getElem?_empty] at h
  cases h

/-- A map with no other inner maps than a tight one is tight. -/
theorem Tight.mono (h : Tight m)
    (hsub : ∀ (k : κ) (inner : Std.ExtTreeMap ι ν cmp'), m'[k]? = some inner → m[k]? = some inner) :
    Tight m' :=
  fun k hk ↦ h k (hsub k ∅ hk)

theorem Tight.insert (h : Tight m) (hinner : inner ≠ ∅) : Tight (m.insert k inner) := by
  intro k' hk'
  rw [Std.ExtTreeMap.getElem?_insert] at hk'
  split at hk'
  · exact hinner (Option.some.inj hk')
  · exact h k' hk'

theorem Tight.erase (h : Tight m) : Tight (m.erase k) := by
  refine h.mono fun k' inner hk' ↦ ?_
  rw [Std.ExtTreeMap.getElem?_erase] at hk'
  split at hk'
  · cases hk'
  · exact hk'

theorem Tight.filter [Std.LawfulEqCmp cmp] (h : Tight m)
    (keep : κ → Std.ExtTreeMap ι ν cmp' → Bool) : Tight (m.filter keep) := by
  refine h.mono fun k' inner hk' ↦ ?_
  rw [Std.ExtTreeMap.getElem?_filter', Option.filter_eq_some_iff] at hk'
  exact hk'.1

/-- Keys of a tight map are where something is stored. -/
theorem Tight.isSome_iff [Std.TransCmp cmp'] [Std.LawfulEqCmp cmp'] (h : Tight m) :
    (m[k]?).isSome ↔ ∃ i : ι, ((m[k]?).bind (·[i]?)).isSome := by
  cases hk : m[k]? with
  | none => simp
  | some inner =>
      have hne : ¬∀ i, i ∉ inner := fun hall ↦
        h k (Std.ExtTreeMap.eq_empty_iff_forall_not_mem.mpr hall ▸ hk)
      obtain ⟨i, hi⟩ := Classical.not_forall_not.mp hne
      exact iff_of_true rfl ⟨i, Std.ExtTreeMap.mem_iff_isSome_getElem?.mp hi⟩

end GroupOffsets
