import GroupOffsets.Pass.Sweep
import GroupOffsets.Proofs.Entries

/-!
# The steps of a sweep pass

What one answer can make of a pass, said once: it goes on to the next partition of the entry, it
removes the entry, or it spares it.  In the last two cases it looks at a further entry, and
`Looks` is what is known of an entry at that moment.
-/

namespace GroupOffsets

namespace Sweep

variable {order : Itinerary} {t : OffsetTable} {subscriptions : Subscriptions}

/-- The pass has just looked at an entry, the first of `keys` that is worth it: the group does not
subscribe, and the copy is what the table holds.  No partition of it is settled yet. -/
structure Looks (t : OffsetTable) (subscriptions : Subscriptions) (removed keys : List GroupTopic)
    (s : Sweep) : Prop where
  removed_eq : s.removed = removed
  suffix : s.key :: s.keys <:+ keys
  unsubscribed : s.key ∉ subscriptions
  copied : t.partitions s.key = some s.copy
  perm : (s.asked :: s.rest).Perm s.copy.toList

/-- A pass goes over entries until it looks at one, or is done. -/
theorem advance_cases (order : Itinerary) (t : OffsetTable) (subscriptions : Subscriptions)
    (removed keys : List GroupTopic) :
    advance order t subscriptions removed keys = .done removed ∨
      ∃ s, advance order t subscriptions removed keys = .asks s ∧
        Looks t subscriptions removed keys s := by
  have skip : ∀ {k ks}, (advance order t subscriptions removed ks = .done removed ∨
        ∃ s, advance order t subscriptions removed ks = .asks s ∧
          Looks t subscriptions removed ks s) →
      advance order t subscriptions removed ks = .done removed ∨
        ∃ s, advance order t subscriptions removed ks = .asks s ∧
          Looks t subscriptions removed (k :: ks) s := by
    rintro k ks (h | ⟨s, h, hs⟩)
    · exact .inl h
    · exact .inr ⟨s, h, { hs with suffix := hs.suffix.trans (List.suffix_cons k ks) }⟩
  induction keys with
  | nil => exact .inl rfl
  | cons k ks ih =>
      rw [advance]
      split
      · exact skip ih
      · rename_i hsub
        split
        · exact skip ih
        · rename_i copy hcopy
          split
          · exact skip ih
          · rename_i asked rest harr
            refine .inr ⟨_, rfl, rfl, List.suffix_refl _, by simpa using hsub, hcopy, ?_⟩
            exact harr ▸ arrange_perm (order.partitions k) copy.toList

/-- Why a pass keeps an entry: there is no minimum, or the offset is ahead of it, or the entry is
no longer what the pass has copied. -/
def Spares (s : Sweep) (t : OffsetTable) (min : Attempt Offset) : Prop :=
  ∀ m, min = .ok m → s.asked.2 ≤ m → s.rest = [] ∧ t.partitions s.key ≠ some s.copy

/-- What a pass makes of a minimum, with the table that it leaves. -/
inductive Step (order : Itinerary) (t : OffsetTable) (subscriptions : Subscriptions) (s : Sweep) :
    Attempt Offset → OffsetTable → Progress Sweep (List GroupTopic) → Prop
  /-- The partition is behind the retained data, and there are more of them. -/
  | next {m : Offset} {asked : Int32 × Offset} {rest : List (Int32 × Offset)}
      (behind : s.asked.2 ≤ m) (more : s.rest = asked :: rest) :
      Step order t subscriptions s (.ok m) t (.asks { s with asked, rest })
  /-- All partitions are behind, and the entry is what it was. -/
  | removes {m : Offset} (behind : s.asked.2 ≤ m) (last : s.rest = [])
      (same : t.partitions s.key = some s.copy) :
      Step order t subscriptions s (.ok m) (t.erase s.key)
        (advance order (t.erase s.key) subscriptions (s.removed ++ [s.key]) s.keys)
  | spares {min : Attempt Offset} (why : s.Spares t min) :
      Step order t subscriptions s min t (advance order t subscriptions s.removed s.keys)

theorem step_answer (s : Sweep) (min : Attempt Offset) :
    Step order t subscriptions s min (s.answer order t subscriptions min).2.1
      (s.answer order t subscriptions min).2.2 := by
  rcases min with e | m
  · exact .spares (fun m h ↦ nomatch h)
  · by_cases hlt : m < s.asked.2
    · have why : s.Spares t (.ok m) := by
        intro m' h hle
        cases h
        exact absurd hlt (Int64.not_lt.mpr hle)
      simpa [answer, hlt] using Step.spares why
    · have hle : s.asked.2 ≤ m := Int64.not_lt.mp hlt
      rcases hrest : s.rest with _ | ⟨asked, rest⟩
      · by_cases hsame : t.partitions s.key = some s.copy
        · have hstep : Step order t subscriptions s (.ok m) (t.erase s.key) _ :=
            .removes hle hrest hsame
          simpa [answer, hlt, hrest, OffsetTable.removeIfUnchanged_of_eq hsame] using hstep
        · have why : s.Spares t (.ok m) := fun _ _ _ ↦ ⟨hrest, hsame⟩
          simpa [answer, hlt, hrest, OffsetTable.removeIfUnchanged_of_ne hsame]
            using Step.spares why
      · have hstep : Step order t subscriptions s (.ok m) t (.asks { s with asked, rest }) :=
          .next hle hrest
        simpa [answer, hlt, hrest] using hstep

end Sweep

end GroupOffsets
