import Std.Data.ExtTreeSet
import GroupOffsets.Arrange
import GroupOffsets.OffsetTable
import GroupOffsets.Pass.Progress

/-!
# The sweeper

One sweep pass drops the entries of groups that no longer subscribe to the topic and whose offsets
all point at records that retention has deleted.  For each partition of an entry it asks for the
offset of the earliest retained record.

An entry is kept whenever something is uncertain: a partition without an answer, or an entry that
is no longer what the pass has looked at.
-/

namespace GroupOffsets

/-- The groups that consume a topic at present. -/
abbrev Subscriptions : Type := Std.ExtTreeSet GroupTopic

/-- A sweep pass that asks for the retained minimum of a partition. -/
structure Sweep where
  /-- What the pass has removed. -/
  removed : List GroupTopic
  /-- The entry that it looks at, and what was in it. -/
  key : GroupTopic
  copy : PartitionOffsets
  /-- The partition that it asks for, with the offset there. -/
  asked : Int32 × Offset
  /-- The partitions of the entry that come after it. -/
  rest : List (Int32 × Offset)
  /-- The entries that come after this one. -/
  keys : List GroupTopic

namespace Sweep

/-- The partition that the pass asks for. -/
def target (s : Sweep) : TopicPartition := ⟨s.key.topic, s.asked.1⟩

variable (order : Itinerary) (t : OffsetTable) (subscriptions : Subscriptions)

/-- Goes over entries up to the first one that has to be looked at. -/
def advance (removed : List GroupTopic) : List GroupTopic → Progress Sweep (List GroupTopic)
  | [] => .done removed
  | key :: keys =>
    if subscriptions.contains key then advance removed keys
    else match t.partitions key with
      | none => advance removed keys
      | some copy =>
        match arrange (order.partitions key) copy.toList with
        | [] => advance removed keys
        | asked :: rest => .asks { removed, key, copy, asked, rest, keys }

/-- Begins a pass over the entries that the table has now. -/
def start : Progress Sweep (List GroupTopic) :=
  advance order t subscriptions [] (arrange order.entries t.keys)

/-- Goes on with the retained minimum of the partition that was asked for, and says whether the
entry that it completes was removed. -/
def answer (s : Sweep) (min : Attempt Offset) :
    Bool × OffsetTable × Progress Sweep (List GroupTopic) :=
  let keep := (false, t, advance order t subscriptions s.removed s.keys)
  match min with
  | .error _ => keep
  | .ok m =>
    if m < s.asked.2 then keep
    else match s.rest with
      | asked :: rest => (false, t, .asks { s with asked, rest })
      | [] =>
        match t.removeIfUnchanged s.key s.copy with
        | (true, t) => (true, t, advance order t subscriptions (s.removed ++ [s.key]) s.keys)
        | (false, _) => keep

end Sweep

end GroupOffsets
