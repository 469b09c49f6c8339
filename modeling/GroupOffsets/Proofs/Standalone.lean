import GroupOffsets.Proofs.Restart
import GroupOffsets.Standalone

/-!
# How the standalone service comes up

The program first creates every configured partition and then registers the handles that it got.
That is one of the ways of coming up over a checkpoint, `Bridge.comeUp`.
-/

namespace GroupOffsets

namespace Standalone

variable {s : Store} {b : Bridge} {c : Config} {points : CursorPoints} {tp tp' : TopicPartition}
variable {tps : List TopicPartition} {n : Nat}

/-- Creating a partition takes no object from another one. -/
theorem object?_createPartition_of_some (h : s.object? tp = some n) :
    (s.createPartition tp').2.object? tp = some n := by
  rw [Store.object?_createPartition]
  split
  · rename_i htp
    subst htp
    rw [Store.ensure_of_some h]
  · exact h

theorem object?_createAll (h : s.object? tp = some n) : (createAll s tps).2.object? tp = some n := by
  induction tps generalizing s with
  | nil => exact h
  | cons tp' tps ih => exact ih (object?_createPartition_of_some h)

/-- The handles are on the objects of the partitions. -/
theorem handles_createAll : List.Forall₂
    (fun tp h ↦ ∃ n, h = ⟨n, none⟩ ∧ (createAll s tps).2.object? tp = some n)
    tps (createAll s tps).1 := by
  induction tps generalizing s with
  | nil => exact .nil
  | cons tp tps ih =>
      have hnew : (s.createPartition tp).2.object? tp = some (s.createPartition tp).1 := by
        rw [Store.object?_createPartition, if_pos rfl]
        rfl
      have hlater : (createAll (s.createPartition tp).2 tps).2.object? tp = _ :=
        object?_createAll hnew
      exact .cons ⟨_, rfl, hlater⟩ ih

theorem openUp_create : b.openUp (tps.map .create) =
    { b with store := (createAll b.store tps).2 } := by
  induction tps generalizing b with
  | nil => rfl
  | cons tp tps ih => exact ih

theorem registerAll_eq {hs : List Handle} (h : List.Forall₂
    (fun tp h ↦ ∃ n, h = ⟨n, none⟩ ∧ b.store.object? tp = some n) tps hs) :
    (registerAll b hs).2 = b.openUp (tps.map (.register [])) := by
  induction tps generalizing b hs with
  | nil =>
      cases h
      rfl
  | cons tp tps ih =>
      cases h with
      | cons head tail =>
          obtain ⟨n, rfl, hn⟩ := head
          have hopening : b.opening (.register [] tp) = (b.register [] ⟨n, none⟩).2.2 := by
            simp only [Bridge.opening, hn]
          have hlater : (registerAll (b.register [] ⟨n, none⟩).2.2 _).2 = _ := ih tail
          rw [List.map_cons, Bridge.openUp, List.foldl_cons, hopening]
          exact hlater

/-- The bridge of the program has come up over the cursors of the checkpoint. -/
theorem comeUp_eq : (comeUp c points).2 =
    .comeUp c.settings ("bridge-" ++ Numeral.text c.general.id.toInt) none points
      (c.partitions.map .create ++ c.partitions.map (.register [])) := by
  rw [Bridge.comeUp, Bridge.openUp_append, openUp_create, ← registerAll_eq handles_createAll]
  rfl

/-- Every configured partition is created and then registered. -/
theorem serves_comeUp : Opening.Serves tps (tps.map .create ++ tps.map (.register [])) := by
  constructor
  · intro op hop
    rcases List.mem_append.mp hop with hmem | hmem
    · obtain ⟨tp, htp, rfl⟩ := List.mem_map.mp hmem
      exact htp
    · obtain ⟨tp, htp, rfl⟩ := List.mem_map.mp hmem
      exact htp
  · intro tp htp
    obtain ⟨before, after, rfl⟩ := List.append_of_mem htp
    refine ⟨(before ++ tp :: after).map .create ++ before.map (.register []), [],
      after.map (.register []), by simp, ?_⟩
    exact List.mem_append_left _ (List.mem_map_of_mem htp)

end Standalone

end GroupOffsets
