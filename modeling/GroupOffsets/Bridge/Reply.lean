import GroupOffsets.Bridge

/-!
# Replies

What the operations of a bridge answer.  Handles appear in replies in some form `η`: as they are, or
as the numbers by which an observer tells them apart.
-/

namespace GroupOffsets

inductive Reply (η : Type) where
  | nothing
  | flag (yes : Bool)
  | count (n : Nat)
  | offset (o : Option Offset)
  | offsets (m : Option PartitionOffsets)
  | names (xs : List String)
  | keys (ks : List GroupTopic)
  | snapshot (s : Snapshot)
  | handle (h : Option η)
  | position (p : Option Position)
  | range (first last : Attempt Position)
  | cursor (group : String) (position : Position)
  | cursors (cs : List (String × Position))
  | partitions (ps : List Int32)
  | report (r : PersistReport)
  | text (s : String)
  | metrics (m : Metrics)
  /-- The lines of a file, if it is there. -/
  | file (lines : Option (List String))
  /-- What a handle shows of its partition. -/
  | loaded (name : TopicPartition) (first last : Attempt Position) (cs : List (String × Position))
  | failed (e : Failure)
  /-- The store has no such partition to work on. -/
  | noPartition

namespace Reply

variable {η : Type}

def ofAttempt {α : Type} (f : α → Reply η) : Attempt α → Reply η
  | .ok a => f a
  | .error e => failed e

/-- The report of a persist pass. -/
def report? : Reply η → Option PersistReport
  | report r => some r
  | _ => none

end Reply

end GroupOffsets
