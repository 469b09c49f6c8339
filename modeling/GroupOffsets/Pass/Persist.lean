import GroupOffsets.Arrange
import GroupOffsets.OffsetTable
import GroupOffsets.Pass.Progress

/-!
# The persister

One persist pass writes every committed offset of a non-system group into the group's durable
cursor on the partition.  It does its best: what fails is counted, and the pass goes on with the
rest.  Offsets below zero stand for no position and fail at once.
-/

namespace GroupOffsets

/-- The outcome of a persist pass. -/
structure PersistReport where
  /-- Offsets written. -/
  persisted : Nat
  /-- Offsets that could not be written. -/
  failed : Nat
  /-- Entries of system groups, which are left to the store. -/
  skippedSystem : Nat
  deriving DecidableEq, Repr

namespace PersistReport

instance : EmptyCollection PersistReport := ⟨⟨0, 0, 0⟩⟩

variable (r : PersistReport)

def total : Nat := r.persisted + r.failed

/-- The report as the outcome of an operation that has to be complete. -/
def result : Attempt PersistReport :=
  if 0 < r.failed then .error (.persistPartial r.failed r.total) else .ok r

def notePersisted : PersistReport := { r with persisted := r.persisted + 1 }

def noteFailed : PersistReport := { r with failed := r.failed + 1 }

def noteSystem : PersistReport := { r with skippedSystem := r.skippedSystem + 1 }

end PersistReport

/-- A persist pass that asks for a cursor to be moved. -/
structure Persist where
  report : PersistReport
  key : GroupTopic
  partition : Int32
  /-- Where the cursor shall stand. -/
  position : Position
  /-- The partitions of the entry that come after this one. -/
  rest : List (Int32 × Offset)
  /-- The entries that come after this one. -/
  keys : List GroupTopic
  deriving DecidableEq, Repr

namespace Persist

/-- The partition that the pass asks for. -/
def target (s : Persist) : TopicPartition := ⟨s.key.topic, s.partition⟩

/-- Goes over the partitions of an entry up to the first one that has a position.  If there is
none, only the report is left. -/
def seek (key : GroupTopic) (keys : List GroupTopic) (report : PersistReport) :
    List (Int32 × Offset) → Progress Persist PersistReport
  | [] => .done report
  | (partition, offset) :: rest =>
    match Position.decode offset with
    | .ok position => .asks { report, key, partition, position, rest, keys }
    | .error _ => seek key keys report.noteFailed rest

variable (order : Itinerary) (t : OffsetTable) (isSystem : String → Bool)

/-- Goes over entries up to the first cursor that has to be moved. -/
def advance (report : PersistReport) : List GroupTopic → Progress Persist PersistReport
  | [] => .done report
  | key :: keys =>
    if isSystem key.group then advance report.noteSystem keys
    else match t.partitions key with
      | none => advance report keys
      | some offsets =>
        match seek key keys report (arrange (order.partitions key) offsets.toList) with
        | .asks s => .asks s
        | .done report => advance report keys

/-- Begins a pass over the entries that the table has now. -/
def start : Progress Persist PersistReport :=
  advance order t isSystem ∅ (arrange order.entries t.keys)

/-- Goes on, told whether the cursor was moved. -/
def answer (s : Persist) (moved : Bool) : Progress Persist PersistReport :=
  let report := if moved then s.report.notePersisted else s.report.noteFailed
  match seek s.key s.keys report s.rest with
  | .asks s => .asks s
  | .done report => advance order t isSystem report s.keys

/-- The report of a pass as it stands. -/
def reportOf : Progress Persist PersistReport → PersistReport
  | .asks s => s.report
  | .done report => report

end Persist

end GroupOffsets
