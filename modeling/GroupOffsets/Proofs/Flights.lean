import GroupOffsets.Flights

/-!
# One work for a key

A work runs or has ended, and a key is registered for the work that runs for it, so that there is
one at most.  `Flights.Sound` says so; it holds from the start, and callers that join and works that
end keep it.
-/

namespace GroupOffsets

namespace Flights

variable {κ ν : Type} [Ord κ] [Std.TransOrd κ]
variable {s : Flights κ ν} {k k' : κ} {c n : Nat} {o o' : Option ν}

/-! ## Joining and ending -/

theorem join_of_some (h : s.registered[k]? = some c) : s.join k = (⟨c, false⟩, s) := by
  rw [join, h]

theorem join_of_none (h : s.registered[k]? = none) : s.join k = (⟨s.next, true⟩, { s with
    registered := s.registered.insert k s.next
    works := s.works.insert s.next k
    next := s.next + 1 }) := by
  rw [join, h]

@[simp] theorem outcome?_join (k : κ) : (s.join k).2.outcome? n = s.outcome? n := by
  rw [join]
  split <;> rfl

theorem next_le_join (k : κ) : s.next ≤ (s.join k).2.next := by
  rw [join]
  split
  · exact Nat.le_refl _
  · exact Nat.le_succ _

/-- A caller joins what runs, and starts a work only if there is none. -/
theorem works_join_cases (s : Flights κ ν) (k : κ) :
    (s.join k).1.leader = false ∧ (s.join k).2 = s ∨
      (s.join k).1 = ⟨s.next, true⟩ ∧ (s.join k).2.next = s.next + 1 ∧
        ∀ c, (s.join k).2.works[c]? = if c = s.next then some k else s.works[c]? := by
  cases hk : s.registered[k]? with
  | some c =>
      rw [join_of_some hk]
      exact .inl ⟨rfl, rfl⟩
  | none =>
      rw [join_of_none hk]
      refine .inr ⟨rfl, rfl, fun c ↦ ?_⟩
      by_cases hc : c = s.next
      · subst hc
        simp
      · have hne : s.next ≠ c := fun h ↦ hc h.symm
        simp [Std.ExtTreeMap.getElem?_insert, Std.LawfulEqCmp.compare_eq_iff_eq, hne, hc]

theorem finish_of_none (h : s.works[c]? = none) : s.finish c o = s := by
  rw [finish, h]

@[simp] theorem next_finish : (s.finish c o).next = s.next := by
  rw [finish]
  split <;> rfl

theorem works_finish (n : Nat) :
    (s.finish c o).works[n]? = if n = c then none else s.works[n]? := by
  rw [finish]
  split
  · rename_i hc
    by_cases hn : n = c
    · rw [if_pos hn, hn, hc]
    · rw [if_neg hn]
  · by_cases hn : n = c
    · subst hn
      simp
    · have hne : c ≠ n := fun h ↦ hn h.symm
      simp [Std.ExtTreeMap.getElem?_erase, Std.LawfulEqCmp.compare_eq_iff_eq, hne, hn]

theorem outcome?_finish_self (h : s.works[c]? = some k) : (s.finish c o).outcome? c = some o := by
  rw [finish, h]
  exact Std.ExtTreeMap.getElem?_insert_self

theorem outcome?_finish_of_ne (h : n ≠ c) : (s.finish c o).outcome? n = s.outcome? n := by
  rw [finish]
  split
  · rfl
  · have hne : c ≠ n := fun heq ↦ h heq.symm
    simp [outcome?, Std.ExtTreeMap.getElem?_insert, Std.LawfulEqCmp.compare_eq_iff_eq, hne]

theorem outcome?_finish (h : (s.finish c o').outcome? n = some o) :
    s.outcome? n = some o ∨ o = o' := by
  by_cases hn : n = c
  · subst hn
    cases hw : s.works[n]? with
    | none =>
        rw [finish_of_none hw] at h
        exact .inl h
    | some k =>
        rw [outcome?_finish_self hw] at h
        exact .inr (Option.some.inj h).symm
  · rw [outcome?_finish_of_ne hn] at h
    exact .inl h

/-! ## Soundness -/

/-- What a new caller joins is what runs, and what runs has not ended.  Numbers that were not given
out yet stand for nothing. -/
structure Sound (s : Flights κ ν) : Prop where
  registered : ∀ {k : κ} {c : Nat}, s.registered[k]? = some c ↔ s.works[c]? = some k
  running : ∀ {c : Nat} {k : κ}, s.works[c]? = some k → s.outcome? c = none
  works_old : ∀ {c : Nat} {k : κ}, s.works[c]? = some k → c < s.next
  outcomes_old : ∀ {c : Nat} {o : Option ν}, s.outcome? c = some o → c < s.next
  size_eq : s.registered.size = s.works.size

theorem sound_empty : (∅ : Flights κ ν).Sound := by
  have hregistered : (∅ : Flights κ ν).registered = ∅ := rfl
  have hworks : (∅ : Flights κ ν).works = ∅ := rfl
  have houtcomes : (∅ : Flights κ ν).outcomes = ∅ := rfl
  constructor <;> simp [hregistered, hworks, houtcomes, outcome?]

/-- The work that a caller joins runs for its key. -/
theorem Sound.works_join (h : s.Sound) (k : κ) : (s.join k).2.works[(s.join k).1.call]? = some k := by
  cases hk : s.registered[k]? with
  | some c =>
      rw [join_of_some hk]
      exact h.registered.mp hk
  | none =>
      rw [join_of_none hk]
      exact Std.ExtTreeMap.getElem?_insert_self

/-- What runs still does when somebody has joined. -/
theorem Sound.works_join_of_some (h : s.Sound) (hn : s.works[n]? = some k') (k : κ) :
    (s.join k).2.works[n]? = some k' := by
  rcases works_join_cases s k with ⟨-, hsame⟩ | ⟨-, -, hworks⟩
  · rwa [hsame]
  · rw [hworks, if_neg (Nat.ne_of_lt (h.works_old hn)), hn]

/-- How a work ended does not change any more. -/
theorem Sound.outcome?_finish_of_some (h : s.Sound) (hn : s.outcome? n = some o) :
    (s.finish c o').outcome? n = some o := by
  by_cases hc : n = c
  · subst hc
    have hended : s.works[n]? = none := by
      refine Option.eq_none_iff_forall_ne_some.mpr fun k hk ↦ ?_
      cases (h.running hk).symm.trans hn
    rwa [finish_of_none hended]
  · rwa [outcome?_finish_of_ne hc]

/-- A key is in flight as long as its work runs. -/
theorem Sound.isInFlight_iff (h : s.Sound) :
    s.isInFlight k = true ↔ ∃ c : Nat, s.works[c]? = some k := by
  rw [isInFlight, Std.ExtTreeMap.contains_iff_mem, Std.ExtTreeMap.mem_iff_isSome_getElem?,
    Option.isSome_iff_exists]
  exact exists_congr fun c ↦ h.registered

/-- A key has one running work at most. -/
theorem Sound.works_inj (h : s.Sound) (hc : s.works[c]? = some k) (hn : s.works[n]? = some k) :
    c = n :=
  Option.some.inj ((h.registered.mpr hc).symm.trans (h.registered.mpr hn))

/-- A caller starts a work if none runs for its key. -/
theorem Sound.leader_join (h : s.Sound) :
    (s.join k).1.leader = true ↔ ∀ c : Nat, s.works[c]? ≠ some k := by
  cases hk : s.registered[k]? with
  | some c =>
      rw [join_of_some hk]
      exact ⟨fun hleads ↦ (nomatch hleads), fun hidle ↦ absurd (h.registered.mp hk) (hidle c)⟩
  | none =>
      rw [join_of_none hk]
      refine ⟨fun _ c hc ↦ ?_, fun _ ↦ rfl⟩
      cases (h.registered.mpr hc).symm.trans hk

/-! ## What keeps flights sound -/

variable [Std.LawfulEqOrd κ]

theorem Sound.join (h : s.Sound) (k : κ) : (s.join k).2.Sound := by
  cases hk : s.registered[k]? with
  | some c => rwa [join_of_some hk]
  | none =>
      rw [join_of_none hk]
      have hidle : ∀ {c : Nat}, s.works[c]? ≠ some k := by
        intro c hc
        cases (h.registered.mpr hc).symm.trans hk
      have hnext : s.works[s.next]? = none := by
        refine Option.eq_none_iff_forall_ne_some.mpr fun k' hk' ↦ ?_
        exact Nat.lt_irrefl _ (h.works_old hk')
      refine ⟨fun {k' c} ↦ ?_, fun {c k'} hc ↦ ?_, fun {c k'} hc ↦ ?_, fun ho ↦ ?_, ?_⟩
      · simp only [Std.ExtTreeMap.getElem?_insert, Std.LawfulEqCmp.compare_eq_iff_eq]
        by_cases hkk : k = k'
        · subst hkk
          by_cases hc : s.next = c
          · simp [hc]
          · simp [hc, hidle]
        · by_cases hc : s.next = c
          · subst hc
            have hfree : s.registered[k']? ≠ some s.next := by
              intro hreg
              cases (h.registered.mp hreg).symm.trans hnext
            simp [hkk, hfree]
          · simp [hkk, hc, h.registered]
      · by_cases hcn : s.next = c
        · subst hcn
          refine Option.eq_none_iff_forall_ne_some.mpr fun o ho ↦ ?_
          exact Nat.lt_irrefl _ (h.outcomes_old ho)
        · simp only [Std.ExtTreeMap.getElem?_insert, Std.LawfulEqCmp.compare_eq_iff_eq, hcn,
            if_false] at hc
          exact h.running hc
      · simp only [Std.ExtTreeMap.getElem?_insert, Std.LawfulEqCmp.compare_eq_iff_eq] at hc
        split at hc
        · rename_i heq
          exact heq ▸ Nat.lt_succ_self _
        · exact Nat.lt_succ_of_lt (h.works_old hc)
      · exact Nat.lt_succ_of_lt (h.outcomes_old ho)
      · have hfree : k ∉ s.registered := by simp [Std.ExtTreeMap.mem_iff_isSome_getElem?, hk]
        have hunused : s.next ∉ s.works := by simp [Std.ExtTreeMap.mem_iff_isSome_getElem?, hnext]
        simp [Std.ExtTreeMap.size_insert, hfree, hunused, h.size_eq]

theorem Sound.finish (h : s.Sound) (c : Nat) (o : Option ν) : (s.finish c o).Sound := by
  cases hc : s.works[c]? with
  | none => rwa [finish_of_none hc]
  | some k =>
      refine ⟨fun {k' n} ↦ ?_, fun {n k'} hn ↦ ?_, fun {n k'} hn ↦ ?_, fun {n o'} hn ↦ ?_, ?_⟩
      · rw [works_finish]
        simp only [Flights.finish, hc, Std.ExtTreeMap.getElem?_erase,
          Std.LawfulEqCmp.compare_eq_iff_eq]
        by_cases hk : k = k'
        · subst hk
          by_cases hn : n = c
          · simp [hn]
          · have hother : s.works[n]? ≠ some k := by
              intro hnk
              exact hn (Option.some.inj ((h.registered.mpr hnk).symm.trans (h.registered.mpr hc)))
            simp [hn, hother]
        · by_cases hn : n = c
          · have hother : s.registered[k']? ≠ some n := by
              intro hreg
              rw [hn] at hreg
              exact hk (Option.some.inj (hc.symm.trans (h.registered.mp hreg)))
            simp [hk, hn, hn ▸ hother]
          · simp [hk, hn, h.registered]
      · rw [works_finish] at hn
        split at hn
        · cases hn
        · rename_i hne
          rw [outcome?_finish_of_ne hne]
          exact h.running hn
      · rw [works_finish] at hn
        rw [next_finish]
        split at hn
        · cases hn
        · exact h.works_old hn
      · rw [next_finish]
        by_cases hne : n = c
        · exact hne ▸ h.works_old hc
        · rw [outcome?_finish_of_ne hne] at hn
          exact h.outcomes_old hn
      · have hregistered : k ∈ s.registered := by
          simp [Std.ExtTreeMap.mem_iff_isSome_getElem?, h.registered.mpr hc]
        have hruns : c ∈ s.works := by simp [Std.ExtTreeMap.mem_iff_isSome_getElem?, hc]
        simp only [Flights.finish, hc, Std.ExtTreeMap.size_erase,
          Std.ExtTreeMap.contains_iff_mem.mpr hregistered, Std.ExtTreeMap.contains_iff_mem.mpr hruns,
          if_true, h.size_eq]

end Flights

end GroupOffsets
