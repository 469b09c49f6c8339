import GroupOffsets.Proofs.Call

/-!
# What holds throughout a run

A run that is cut in two has what holds throughout it in both parts.
-/

namespace GroupOffsets

namespace World

variable {w : World} {ch : Choice} {e : Event} {es es' : List (Choice × Event)}

/-- Something holds from the start of a run to its end. -/
def Always (w : World) (P : World → Prop) (es : List (Choice × Event)) : Prop :=
  ∀ done rest, es = done ++ rest → P (w.steps done)

variable {P Q : World → Prop} {R : World → Choice → Event → Prop}

theorem Always.start (h : w.Always P es) : P w := h [] es rfl

theorem Always.stop (h : w.Always P es) : P (w.steps es) := h es [] (List.append_nil es).symm

theorem Always.left (h : w.Always P (es ++ es')) : w.Always P es := by
  rintro done rest rfl
  exact h done (rest ++ es') (List.append_assoc ..)

theorem Always.right (h : w.Always P (es ++ es')) : (w.steps es).Always P es' := by
  rintro done rest rfl
  rw [← steps_append]
  exact h (es ++ done) rest (List.append_assoc ..).symm

theorem Always.tail (h : w.Always P ((ch, e) :: es)) : (w.step ch e).Always P es := by
  have hsplit : w.Always P ([(ch, e)] ++ es) := h
  exact hsplit.right

theorem Always.cons (h : P w) (hes : (w.step ch e).Always P es) : w.Always P ((ch, e) :: es) := by
  intro done rest heq
  cases done with
  | nil => exact h
  | cons e' done =>
      cases heq
      exact hes done rest rfl

theorem always_cons_iff :
    w.Always P ((ch, e) :: es) ↔ P w ∧ (w.step ch e).Always P es :=
  ⟨fun h ↦ ⟨h.start, h.tail⟩, fun h ↦ .cons h.1 h.2⟩

theorem Always.append (h : w.Always P es) (hes : (w.steps es).Always P es') :
    w.Always P (es ++ es') := by
  induction es generalizing w with
  | nil => exact hes
  | cons e es ih => exact .cons h.start (ih h.tail hes)

theorem Always.mono (h : w.Always P es) (hPQ : ∀ v, P v → Q v) : w.Always Q es :=
  fun done rest heq ↦ hPQ _ (h done rest heq)

theorem always_nil (h : P w) : w.Always P [] := by
  rintro done rest heq
  rw [(List.append_eq_nil_iff.mp heq.symm).1]
  exact h

instance decidableAlways [DecidablePred P] :
    (es : List (Choice × Event)) → (w : World) → Decidable (w.Always P es)
  | [], w => decidable_of_iff (P w) ⟨always_nil, Always.start⟩
  | e :: es, w =>
    have := decidableAlways es (w.step e.1 e.2)
    decidable_of_iff (P w ∧ (w.step e.1 e.2).Always P es) always_cons_iff.symm

/-- What every event keeps holds throughout. -/
theorem always_of_step (h : P w) (hstep : ∀ v ch e, (ch, e) ∈ es → P v → P (v.step ch e)) :
    w.Always P es := by
  induction es generalizing w with
  | nil => exact always_nil h
  | cons e es ih =>
      exact .cons h (ih (hstep w e.1 e.2 (List.mem_cons_self ..) h)
        fun v ch e he ↦ hstep v ch e (List.mem_cons_of_mem _ he))

/-- What every event keeps, but for those of one kind, holds throughout or up to the first one of
that kind. -/
theorem always_or_exists (h : P w)
    (hstep : ∀ v ch e, (ch, e) ∈ es → P v → P (v.step ch e) ∨ R v ch e) :
    w.Always P es ∨ ∃ lead ch e rest, es = lead ++ (ch, e) :: rest ∧ w.Always P lead ∧
      R (w.steps lead) ch e := by
  induction es generalizing w with
  | nil => exact .inl (always_nil h)
  | cons e es ih =>
      obtain ⟨ch, e⟩ := e
      rcases hstep w ch e (List.mem_cons_self ..) h with hkept | hR
      · rcases ih hkept fun v ch e he ↦ hstep v ch e (List.mem_cons_of_mem _ he) with
          halways | ⟨lead, ch', e', rest, rfl, halways, hR⟩
        · exact .inl (.cons h halways)
        · exact .inr ⟨(ch, e) :: lead, ch', e', rest, rfl, .cons h halways, hR⟩
      · exact .inr ⟨[], ch, e, es, rfl, always_nil h, hR⟩

end World

end GroupOffsets
