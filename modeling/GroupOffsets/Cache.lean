import Std.Data.ExtTreeMap
import GroupOffsets.Store

/-!
# The partition cache

Handles on partitions that were looked up before, by topic and partition.  The first handle for a
partition stays until it is refreshed or invalidated.

Every invalidation starts a new generation of its topic.  A lookup remembers the generation in
which it began, and what it finds is kept only if that generation still lasts; otherwise the object
that was just thrown out could come back.
-/

namespace GroupOffsets

structure Cache where
  handles : Std.ExtTreeMap String (Std.ExtTreeMap Int32 Handle)
  generations : Std.ExtTreeMap String Nat

namespace Cache

instance : EmptyCollection Cache := ⟨⟨∅, ∅⟩⟩

variable (c : Cache) (tp : TopicPartition) (h : Handle)

/-- The handles on a topic. -/
def topic (topic : String) : Std.ExtTreeMap Int32 Handle := (c.handles[topic]?).getD ∅

/-- The handle on a partition, if it is cached. -/
def get? : Option Handle := (c.topic tp.topic)[tp.partition]?

/-- The current generation of a topic. -/
def generation (topic : String) : Nat := (c.generations[topic]?).getD 0

/-- Caches a handle in place of any other, e.g. after the store has loaded the partition anew. -/
def refresh : Cache :=
  { c with handles := c.handles.insert tp.topic ((c.topic tp.topic).insert tp.partition h) }

/-- Caches a handle unless there is one, and returns the one that is cached then. -/
def insertIfAbsent : Handle × Cache :=
  match c.get? tp with
  | some cached => (cached, c)
  | none => (h, c.refresh tp h)

/-- Caches what a lookup found, if the topic was not invalidated since the lookup began, and
returns the handle for those who wait. -/
def insertResolved (generation : Nat) : Handle × Cache :=
  if c.generation tp.topic = generation then c.insertIfAbsent tp h else (h, c)

/-- Starts a new generation of a topic. -/
def bump (topic : String) : Cache :=
  { c with generations := c.generations.insert topic (c.generation topic + 1) }

/-- Drops a handle and returns it; a topic without handles is dropped too. -/
def invalidate : Option Handle × Cache :=
  let rest := (c.topic tp.topic).erase tp.partition
  (c.get? tp, { c.bump tp.topic with
    handles := if rest.isEmpty then c.handles.erase tp.topic
      else c.handles.insert tp.topic rest })

/-- Drops all handles on a topic and says how many there were. -/
def invalidateTopic (topic : String) : Nat × Cache :=
  ((c.topic topic).size, { c.bump topic with handles := c.handles.erase topic })

/-- The partitions of a topic that are cached, in order. -/
def cachedPartitions (topic : String) : List Int32 := (c.topic topic).keys

end Cache

end GroupOffsets
