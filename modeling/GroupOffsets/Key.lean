import GroupOffsets.Failure

/-!
# Names of things

Offsets are kept per consumer group and topic, partition objects per topic and partition, durable
cursors per group and partition.  Each kind of name is ordered part by part, texts by code point,
and each has a written form; `TopicPartition.ofText` reads the form `topic-partition`, in which the
partition stands behind the last dash.
-/

namespace GroupOffsets

/-- A consumer group on a topic. -/
structure GroupTopic where
  group : String
  topic : String
  deriving DecidableEq, Repr

namespace GroupTopic

instance : Ord GroupTopic := ⟨compareLex (compareOn group) (compareOn topic)⟩

instance : Std.TransOrd GroupTopic :=
  inferInstanceAs (Std.TransCmp (compareLex (compareOn group) (compareOn topic)))

instance : Std.LawfulEqOrd GroupTopic where
  eq_of_compare {k l} h := by
    have h : (compare k.group l.group).then (compare k.topic l.topic) = .eq := h
    obtain ⟨hg, ht⟩ := Ordering.then_eq_eq.mp h
    cases k; cases l
    cases Std.LawfulEqCmp.eq_of_compare hg; cases Std.LawfulEqCmp.eq_of_compare ht; rfl

/-- A group on a topic as `topic@group`. -/
def text (k : GroupTopic) : String := k.topic ++ "@" ++ k.group

end GroupTopic

/-- A partition of a topic. -/
structure TopicPartition where
  topic : String
  partition : Int32
  deriving DecidableEq, Repr

namespace TopicPartition

instance : Ord TopicPartition := ⟨compareLex (compareOn topic) (compareOn partition)⟩

instance : Std.TransOrd TopicPartition :=
  inferInstanceAs (Std.TransCmp (compareLex (compareOn topic) (compareOn partition)))

instance : Std.LawfulEqOrd TopicPartition where
  eq_of_compare {k l} h := by
    have h : (compare k.topic l.topic).then (compare k.partition l.partition) = .eq := h
    obtain ⟨ht, hp⟩ := Ordering.then_eq_eq.mp h
    cases k; cases l
    cases Std.LawfulEqCmp.eq_of_compare ht; cases Std.LawfulEqCmp.eq_of_compare hp; rfl

/-- A partition as `topic-partition`. -/
def text (tp : TopicPartition) : String := tp.topic ++ "-" ++ Numeral.text tp.partition.toInt

/-- Splits a text at the last place where `sep` stands. -/
def splitLast (sep : Char) : List Char → Option (List Char × List Char)
  | [] => none
  | c :: cs =>
    match splitLast sep cs with
    | some (before, after) => some (c :: before, after)
    | none => if c = sep then some ([], cs) else none

/-- Reads `topic-partition`; the topic may contain dashes, the partition has none. -/
def ofText (s : String) : Attempt TopicPartition :=
  match splitLast '-' s.toList with
  | none => .error (.invalidValue ("topic partition name " ++ s))
  | some (topic, partition) =>
    match Numeral.readInt32 partition with
    | .error fault => .error (.numeral fault)
    | .ok p => .ok ⟨String.ofList topic, p⟩

end TopicPartition

/-- The durable cursor of a group on a partition. -/
structure CursorKey where
  group : String
  on : TopicPartition
  deriving DecidableEq, Repr

namespace CursorKey

instance : Ord CursorKey := ⟨compareLex (compareOn group) (compareOn on)⟩

instance : Std.TransOrd CursorKey :=
  inferInstanceAs (Std.TransCmp (compareLex (compareOn group) (compareOn on)))

instance : Std.LawfulEqOrd CursorKey where
  eq_of_compare {k l} h := by
    have h : (compare k.group l.group).then (compare k.on l.on) = .eq := h
    obtain ⟨hg, hp⟩ := Ordering.then_eq_eq.mp h
    cases k; cases l
    cases Std.LawfulEqCmp.eq_of_compare hg; cases Std.LawfulEqCmp.eq_of_compare hp; rfl

end CursorKey

end GroupOffsets
