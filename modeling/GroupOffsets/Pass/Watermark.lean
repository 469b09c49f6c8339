import GroupOffsets.Arrange
import GroupOffsets.OffsetTable
import GroupOffsets.Pass.Progress

/-!
# The watermark

Per partition of a topic, the lowest offset that some group still needs.  An offset below the
retained minimum points at deleted records and does not count.  Where the minimum is unknown every
offset counts: a low watermark is the safe side.

The offsets are those that the table held when the query began.  Each partition is asked for at
most once.
-/

namespace GroupOffsets

/-- A watermark query that asks for the retained minimum of a partition. -/
structure Watermark where
  topic : String
  /-- The answers so far, `none` where there was no minimum. -/
  known : Std.ExtTreeMap Int32 (Option Offset)
  marks : PartitionOffsets
  /-- The partition that it asks for, with the offset that made it do so. -/
  asked : Int32 × Offset
  /-- The offsets that come after it. -/
  rest : List (Int32 × Offset)

namespace Watermark

/-- The partition that the query asks for. -/
def target (s : Watermark) : TopicPartition := ⟨s.topic, s.asked.1⟩

/-- The smaller of two offsets. -/
def lower (o o' : Offset) : Offset := if o' < o then o' else o

/-- Whether an offset points at deleted records. -/
def isStale (min : Option Offset) (o : Offset) : Bool :=
  match min with
  | some m => o < m
  | none => false

/-- Takes an offset into account, given what is known of the partition's minimum. -/
def note (marks : PartitionOffsets) (min : Option Offset) (p : Int32) (o : Offset) :
    PartitionOffsets :=
  if isStale min o then marks
  else marks.insert p (match marks[p]? with | some mark => lower mark o | none => o)

/-- Goes over offsets up to the first one on a partition not asked for before. -/
def advance (topic : String) (known : Std.ExtTreeMap Int32 (Option Offset))
    (marks : PartitionOffsets) : List (Int32 × Offset) → Progress Watermark PartitionOffsets
  | [] => .done marks
  | (p, o) :: rest =>
    match known[p]? with
    | some min => advance topic known (note marks min p o) rest
    | none => .asks { topic, known, marks, asked := (p, o), rest }

variable (order : Itinerary) (t : OffsetTable) (topic : String) (excluded : List String)

/-- The offsets on a topic, one group after the other. -/
def offsets : List (Int32 × Offset) :=
  (arrange order.entries (t.offsetsOf topic excluded)).flatMap fun e =>
    arrange (order.partitions ⟨e.1, topic⟩) e.2.toList

/-- Begins a query over the offsets that the table holds now. -/
def start : Progress Watermark PartitionOffsets :=
  advance topic ∅ ∅ (offsets order t topic excluded)

/-- Goes on with the retained minimum of the partition that was asked for. -/
def answer (s : Watermark) (min : Attempt Offset) : Progress Watermark PartitionOffsets :=
  advance s.topic (s.known.insert s.asked.1 min.toOption)
    (note s.marks min.toOption s.asked.1 s.asked.2) s.rest

end Watermark

end GroupOffsets
