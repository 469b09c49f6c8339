import Std.Data.ExtTreeMap
import GroupOffsets.Key
import GroupOffsets.Position

/-!
# The offset table

The offsets that consumer groups committed: per group and topic an entry, and in it one offset per
partition.  A commit always overwrites, also with a smaller offset, since consumers may rewind; the
table counts the commits that did so.

An entry may be empty only where a restored snapshot had an empty one; every other operation that
makes an entry also puts an offset into it.
-/

namespace GroupOffsets

/-- Offsets by partition. -/
abbrev PartitionOffsets : Type := Std.ExtTreeMap Int32 Offset

/-- A plain copy of a table's offsets. -/
abbrev Snapshot : Type := Std.ExtTreeMap GroupTopic PartitionOffsets

structure OffsetTable where
  entries : Snapshot
  /-- How many commits put an offset below the one stored before. -/
  regressions : Nat

namespace OffsetTable

instance : EmptyCollection OffsetTable := ⟨⟨∅, 0⟩⟩

variable (t : OffsetTable) (k : GroupTopic) (p : Int32) (o : Offset)

/-- The entry of a group on a topic. -/
def partitions : Option PartitionOffsets := t.entries[k]?

/-- The offsets of a group on a topic, none if there is no entry. -/
def queryAll : PartitionOffsets := (t.partitions k).getD ∅

/-- The offset of a group on a partition. -/
def query : Option Offset := (t.queryAll k)[p]?

/-- Stores an offset, in a new entry if need be. -/
def put : OffsetTable := { t with entries := t.entries.insert k ((t.queryAll k).insert p o) }

/-- Whether a commit of `o` would rewind. -/
def regresses : Bool :=
  match t.query k p with
  | some previous => o < previous
  | none => false

/-- Commits an offset: the last writer wins. -/
def commit : OffsetTable :=
  { t.put k p o with regressions := t.regressions + if t.regresses k p o then 1 else 0 }

/-- Copies the offsets of group `source` on a topic to group `dest`; nothing happens if `source`
has no entry there. -/
def cloneGroup (source dest topic : String) : OffsetTable :=
  match t.partitions ⟨source, topic⟩ with
  | none => t
  | some copy => { t with
      entries := t.entries.insert ⟨dest, topic⟩ (t.queryAll ⟨dest, topic⟩ ∪ copy) }

/-- Stores an offset where there is none yet, and says whether it did. -/
def seedIfAbsent : Bool × OffsetTable :=
  match t.query k p with
  | some _ => (false, t)
  | none => (true, t.put k p o)

/-- The groups and topics that have an entry, in order. -/
def keys : List GroupTopic := t.entries.keys

/-- The topics on which a group has an entry, in order. -/
def topicsOf (group : String) : List String :=
  (t.keys.filter (·.group == group)).map (·.topic)

/-- The groups that have an entry on a topic, in order. -/
def groupsOf (topic : String) : List String :=
  (t.keys.filter (·.topic == topic)).map (·.group)

/-- The entries of all groups on a topic but the `excluded` ones. -/
def offsetsOf (topic : String) (excluded : List String) : List (String × PartitionOffsets) :=
  (t.entries.toList.filter fun e => e.1.topic == topic && !excluded.contains e.1.group).map
    fun e => (e.1.group, e.2)

/-- Drops an entry. -/
def erase : OffsetTable := { t with entries := t.entries.erase k }

/-- Drops an entry and returns what it held. -/
def remove : Option PartitionOffsets × OffsetTable := (t.partitions k, t.erase k)

/-- Drops every entry of a group, and says how many there were. -/
def deleteGroup (group : String) : Nat × OffsetTable :=
  let rest := t.entries.filter fun k _ => k.group != group
  (t.entries.size - rest.size, { t with entries := rest })

/-- Whether `offsets` has as many partitions as `expected`, each with the offset it has there. -/
def unchanged (expected offsets : PartitionOffsets) : Bool :=
  offsets.size == expected.size && offsets.all fun p o => expected[p]? == some o

/-- Drops an entry if it still holds what the caller has seen in it, and says whether it did. -/
def removeIfUnchanged (expected : PartitionOffsets) : Bool × OffsetTable :=
  match t.partitions k with
  | some offsets => if unchanged expected offsets then (true, t.erase k) else (false, t)
  | none => (false, t)

def snapshot : Snapshot := t.entries

/-- Replaces all offsets; the count of regressions stays. -/
def restore (s : Snapshot) : OffsetTable := { t with entries := s }

/-- The number of entries. -/
def size : Nat := t.entries.size

def isEmpty : Bool := t.entries.isEmpty

/-- The number of offsets, in all entries. -/
def count : Nat := t.keys.foldr (fun k n => (t.queryAll k).size + n) 0

end OffsetTable

end GroupOffsets
