import GroupOffsets.Proofs.Rounds
import GroupOffsets.Proofs.Sweep.Run

/-!
# Retained minima as they are told

Sweep passes and watermark queries ask for the retained minima of partitions, one after the other.
`World.minima` is what a call was told of them in a run.

A call runs in quiet (`World.Quiet`) if nothing else touches what it looks at, and the minimum of a
partition is the same whenever it is told.
-/

namespace GroupOffsets

open World (Choice Event)

namespace World

section Minima

variable (w : World) (n : Nat)

/-- The partition whose retained minimum the next step of call `n` is told, or fails to obtain. -/
def minimum? : Option (TopicPartition × Attempt Offset) :=
  (w.calls[n]?.bind (w.bridge.handed w.now)).map fun (p, r) => (p.target, w.bridge.minOffset r)

/-- The retained minima that call `n` is told in a run. -/
def minima (es : List (Choice × Event)) : List (TopicPartition × Attempt Offset) :=
  w.trace n (fun w _ ↦ (w.minimum? n).toList) es

end Minima

variable {w : World} {n : Nat} {ch : Choice} {c : Call} {p : Purpose} {left : Call.Measure}
  {es es' : List (Choice × Event)} {min : TopicPartition → Option Offset}

theorem minimum?_of_handed {r : Attempt Handle} (hc : w.calls[n]? = some c)
    (hh : w.bridge.handed w.now c = some (p, r)) :
    w.minimum? n = some (p.target, w.bridge.minOffset r) := by
  rw [minimum?, hc, Option.bind_some, hh, Option.map_some]

theorem minimum?_of_not_handed (hc : w.calls[n]? = some c)
    (hh : w.bridge.handed w.now c = none) : w.minimum? n = none := by
  rw [minimum?, hc, Option.bind_some, hh, Option.map_none]

/-- A call that needs no partition is told nothing. -/
theorem minimum?_of_purpose?_none (hc : w.calls[n]?.bind Call.purpose? = none) :
    w.minimum? n = none := by
  rw [minimum?, Option.map_eq_none_iff]
  cases hn : w.calls[n]? with
  | none => rfl
  | some c =>
      rw [hn, Option.bind_some] at hc
      refine Option.eq_none_iff_forall_ne_some.mpr fun pr hh ↦ ?_
      cases hc.symm.trans (Bridge.purpose?_of_handed hh)

/-- What a sweep pass finds out is a minimum that it is told. -/
theorem minimum?_of_finding? {f : Finding} (h : w.finding? n = some f) :
    w.minimum? n = some (⟨f.key.topic, f.partition⟩, f.minimum) := by
  rw [finding?] at h
  split at h
  · rename_i s r hs
    cases h
    rw [minimum?, hs]
    rfl
  · cases h

/-- Nothing but call `n` touches the table or the subscriptions, the call is not given up, and what
it is told of a partition is always the same. -/
def Quiet (n : Nat) (min : TopicPartition → Option Offset) : World → List (Choice × Event) → Prop
  | _, [] => True
  | w, (ch, e) :: es =>
    (e = .step (.call n) → ∀ x ∈ w.minimum? n, x.2.toOption = min x.1) ∧
      (e ≠ .step (.call n) → e ≠ .cancel n ∧ (w.step ch e).bridge.table = w.bridge.table ∧
        (w.step ch e).bridge.subscriptions = w.bridge.subscriptions) ∧
      Quiet n min (w.step ch e) es

theorem quiet_append : w.Quiet n min (es ++ es') ↔
    w.Quiet n min es ∧ (w.steps es).Quiet n min es' := by
  induction es generalizing w with
  | nil => simp [Quiet]
  | cons e es ih =>
      obtain ⟨ch, e⟩ := e
      simp only [List.cons_append, Quiet, steps_cons, ih, and_assoc]

theorem Quiet.bears (h : w.Quiet n min es) : w.Bears left n es := by
  induction es generalizing w with
  | nil => trivial
  | cons e es ih =>
      obtain ⟨-, hothers, hrest⟩ := h
      refine ⟨fun hne ↦ ?_, ih hrest⟩
      obtain ⟨hkept, htable, -⟩ := hothers hne
      exact ⟨hkept, htable ▸ .refl⟩

/-- In quiet, whatever a call is told is the minimum. -/
theorem Quiet.of_mem_minima (h : w.Quiet n min es) {x : TopicPartition × Attempt Offset}
    (hx : x ∈ w.minima n es) : x.2.toOption = min x.1 := by
  induction es using List.reverseRecOn with
  | nil => cases hx
  | append_singleton es e ih =>
      obtain ⟨ch, e⟩ := e
      obtain ⟨hbefore, hown, -⟩ := quiet_append.mp h
      by_cases he : e = .step (.call n)
      · subst he
        rw [minima, trace_concat_own] at hx
        rcases List.mem_append.mp hx with hx | hx
        · exact ih hbefore hx
        · exact hown rfl x (Option.mem_toList.mp hx)
      · rw [minima, trace_concat_of_ne he] at hx
        exact ih hbefore hx

/-- Time does not disturb a call. -/
theorem quiet_rounds {k : Nat} (h : ∀ j < k, ∀ x ∈ (((w.steps (rounds
    (List.replicate j (.call n)))).step .plain (.elapse 10)).minimum? n), x.2.toOption = min x.1) :
    w.Quiet n min (rounds (List.replicate k (.call n))) := by
  induction k generalizing w with
  | zero => trivial
  | succ k ih =>
      have hlapse : Event.elapse 10 ≠ .step (.call n) := nofun
      refine ⟨fun hown ↦ absurd hown hlapse, fun _ ↦ ⟨nofun, rfl, rfl⟩,
        fun _ ↦ h 0 (Nat.succ_pos k), fun hother ↦ absurd rfl hother, ih fun j hj ↦ ?_⟩
      exact h (j + 1) (Nat.succ_lt_succ hj)

end World

end GroupOffsets
