import GroupOffsets.Proofs.Provenance

/-!
# Groups that are deleted

When a group is deleted, its offsets go from the table, but not its durable cursors from the store.
So they come back when a partition is registered again on which the group has a cursor, and there is
no other way, as long as nobody writes offsets for the group.
-/

namespace GroupOffsets

open World (Choice Event Use)

namespace World

variable {w : World} {u : Use} {us : List Use} {g : String} {k : GroupTopic} {p : Int32}
variable {o : Offset}

/-- Whether a use writes an offset for a group: a commit does, and so does a clone or a snapshot
that has one for it. -/
def WritesFor (w : World) (g : String) : Use → Prop
  | .event _ (.operate (.commit k _ _)) => k.group = g
  | .event _ (.operate (.cloneGroup source dest topic)) =>
    dest = g ∧ ∃ p o, w.bridge.table.query ⟨source, topic⟩ p = some o
  | .event _ (.operate (.restore s)) => ∃ topic p o, Ledger.ofSnapshot s ⟨g, topic⟩ p = some o
  | _ => False

/-- A group that is not written for gets its offsets from its cursors. -/
theorem Gives.cases_of_not_writesFor (h : w.Gives k p o u) (hu : ¬ w.WritesFor k.group u) :
    ∃ x, w.Seeds u k p x ∧ x.encode = .ok o := by
  cases h with
  | commit => exact absurd rfl hu
  | clone held => exact absurd ⟨rfl, p, o, held⟩ hu
  | restore held => exact absurd ⟨k.topic, p, o, held⟩ hu
  | @cursor _ x seeds encodes => exact ⟨x, seeds, encodes⟩

/-- What a group has that had nothing before, and was not written for, are offsets of its
cursors. -/
theorem seeded_of_query (hempty : ∀ topic p, w.bridge.table.query ⟨g, topic⟩ p = none)
    (hus : w.Throughout us fun v u ↦ ¬ v.WritesFor g u) {topic : String}
    (ho : (w.uses us).bridge.table.query ⟨g, topic⟩ p = some o) :
    w.Happens us fun v u ↦ ∃ x, v.Seeds u ⟨g, topic⟩ p x ∧ x.encode = .ok o := by
  induction us using List.reverseRecOn with
  | nil => cases (hempty topic p).symm.trans ho
  | append_singleton us u ih =>
      rw [uses_append] at ho
      rcases query_use_cases ho with hold | hgives
      · exact (ih hus.init hold).append [u]
      · exact ⟨us, u, [], rfl, hgives.cases_of_not_writesFor hus.last⟩

/-- A group that was deleted has no offset until one is written for it, unless a partition was
registered since then: an offset that is there stands for the position of a cursor of the group, at
the time of that registration, on the handle that is cached for the partition.  Such a registration
brings the offset back where there is none; groups of the system stay away. -/
theorem deleted_group_returns_by_cursor (now : Nat) (settings : Bridge.Settings) (owner : String)
    (points : CursorPoints) (manualClock : Option Nat) (before after : List Use) (ch : Choice)
    (g : String) :
    let start := new now (.new settings (.new owner points) manualClock)
    let d := (start.uses before).use (.event ch (.operate (.deleteGroup g)))
    let w := d.uses after
    (d.Throughout after fun v u ↦ ¬ v.WritesFor g u) →
    (∀ topic p o, w.bridge.table.query ⟨g, topic⟩ p = some o →
      d.Happens after fun v u ↦ ∃ x, v.Seeds u ⟨g, topic⟩ p x ∧ x.encode = .ok o) ∧
    ∀ u topic p x o, w.Seeds u ⟨g, topic⟩ p x → x.encode = .ok o →
      w.bridge.table.query ⟨g, topic⟩ p = none →
      (w.use u).bridge.table.query ⟨g, topic⟩ p = some o := by
  intro start d w hquiet
  have hempty : ∀ topic p, d.bridge.table.query ⟨g, topic⟩ p = none := fun topic p ↦
    OffsetTable.query_deleteGroup.trans (if_pos rfl)
  exact ⟨fun topic p o ho ↦ seeded_of_query hempty hquiet ho,
    fun u topic p x o hseeds hx hnone ↦ hseeds.query_use hx hnone⟩

/-- A group commits, and its offset is persisted. -/
def persisted : List Use :=
  [.event .plain (.operate (.createPartition ⟨"t", 0⟩)),
    .event .plain (.operate (.commit ⟨"g", "t"⟩ 0 268435456)),
    .event .plain (.operate (.register ⟨"t", 0⟩)), .event .plain (.call .persist),
    .event .plain (.step (.call 0)), .event .plain (.step (.call 0))]

/-- The partition is registered again. -/
def reregistered : List Use := [.event .plain (.operate (.register ⟨"t", 0⟩))]

theorem not_writesFor_reregistered :
    w.Throughout reregistered fun v u ↦ ¬ v.WritesFor g u := by
  rw [reregistered, throughout_cons]
  exact ⟨id, throughout_nil⟩

/-- The world in which the group was deleted. -/
def deleted : World :=
  ((new 0 (.new ⟨[], ⟨1, 1, 10, 3⟩, 100⟩ (.new "node" ∅) none)).uses persisted).use
    (.event .plain (.operate (.deleteGroup "g")))

theorem query_reregistered :
    (deleted.uses reregistered).bridge.table.query ⟨"g", "t"⟩ 0 = some 268435456 := by
  decide +kernel

theorem cursor_brings_group_back :
    deleted.Happens reregistered fun v u ↦
      ∃ x, v.Seeds u ⟨"g", "t"⟩ 0 x ∧ x.encode = .ok 268435456 := by
  obtain ⟨hseeded, -⟩ := deleted_group_returns_by_cursor 0 ⟨[], ⟨1, 1, 10, 3⟩, 100⟩ "node" ∅ none
    persisted reregistered .plain "g" not_writesFor_reregistered
  exact hseeded "t" 0 268435456 query_reregistered

/-- A group that was deleted need not stay away, though nobody writes for it. -/
theorem not_deleted_group_stays_away :
    ¬ ∀ (now : Nat) (settings : Bridge.Settings) (owner : String) (points : CursorPoints)
      (manualClock : Option Nat) (before after : List Use) (ch : Choice) (g : String),
      let start := new now (.new settings (.new owner points) manualClock)
      let d := (start.uses before).use (.event ch (.operate (.deleteGroup g)))
      (d.Throughout after fun v u ↦ ¬ v.WritesFor g u) →
      ∀ topic p, (d.uses after).bridge.table.query ⟨g, topic⟩ p = none := by
  intro hall
  have hnone := hall 0 ⟨[], ⟨1, 1, 10, 3⟩, 100⟩ "node" ∅ none persisted reregistered .plain "g"
    not_writesFor_reregistered "t" 0
  cases query_reregistered.symm.trans hnone

end World

end GroupOffsets
