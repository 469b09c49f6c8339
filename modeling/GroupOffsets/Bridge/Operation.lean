import GroupOffsets.Bridge.Reply

/-!
# Operations

The operations of a bridge, and of the store below it, that are done in one step.
-/

namespace GroupOffsets

inductive Operation where
  -- The table
  | commit (k : GroupTopic) (p : Int32) (o : Offset)
  | query (k : GroupTopic) (p : Int32)
  | queryAll (k : GroupTopic)
  | cloneGroup (source dest topic : String)
  | topicsOf (group : String)
  | groupsOf (topic : String)
  | deleteGroup (group : String)
  | remove (k : GroupTopic)
  | snapshot
  | restore (s : Snapshot)
  | regressions
  | isSystemGroup (group : String)
  -- Registration
  | register (tp : TopicPartition)
  /-- Registers an object that the store does not know. -/
  | registerDetached (p : Partition)
  | unregister (tp : TopicPartition)
  | unregisterTopic (topic : String)
  -- The cache
  | cached (tp : TopicPartition)
  /-- Caches an object that the store does not know, unless there is one. -/
  | insertDetached (p : Partition)
  | refreshDetached (p : Partition)
  | invalidate (tp : TopicPartition)
  | invalidateTopic (topic : String)
  | cachedPartitions (topic : String)
  | isResolving (tp : TopicPartition)
  | inspect (h : Handle)
  -- Subscriptions
  | subscribe (k : GroupTopic)
  | unsubscribe (k : GroupTopic)
  | isSubscribed (k : GroupTopic)
  -- Partitions of the store
  | createPartition (tp : TopicPartition)
  | deletePartition (tp : TopicPartition)
  | setRange (tp : TopicPartition) (first last : Position)
  | append (tp : TopicPartition)
  | roll (tp : TopicPartition)
  | trim (tp : TopicPartition) (x : Position)
  | range (tp : TopicPartition)
  | cursor (tp : TopicPartition) (group : String)
  | openCursor (tp : TopicPartition) (group : String)
  | resetCursor (tp : TopicPartition) (group : String) (x : Position)
  | cursors (tp : TopicPartition)
  | getPartition (tp : TopicPartition) (owner : String)
  -- How the store behaves
  | setUnavailable (tp : TopicPartition) (yes : Bool)
  | failNext (n : Nat)
  | setLookupDelay (ms : Nat)
  | lookups
  | setFault (tp : TopicPartition) (fault : Option LookupFault)
  -- Clock and counters
  | advanceClock (ms : Nat)
  | metrics

namespace Bridge

variable (b : Bridge)

/-- Works on the object of an existing partition. -/
def onPartition (tp : TopicPartition) (f : Partition → Reply Handle × Partition) :
    Reply Handle × Bridge :=
  match b.store.object? tp with
  | none => (.noPartition, b)
  | some n =>
    let (reply, p) := f (b.store.object n)
    (reply, { b with store := b.store.setObject n p })

/-- Looks at the object of an existing partition. -/
def atPartition (tp : TopicPartition) (f : Partition → Reply Handle) : Reply Handle × Bridge :=
  match b.store.object? tp with
  | none => (.noPartition, b)
  | some n => (f (b.store.object n), b)

/-- A handle on a new object that the store serves under no name. -/
def detach (p : Partition) : Handle × Bridge :=
  let (n, store) := b.store.allocate p
  (⟨n, none⟩, { b with store })

/-- Registers a handle and answers with the one that is cached. -/
def registered (h : Handle) : Reply Handle × Bridge :=
  let (h, _, b) := b.register [] h
  (.handle (some h), b)

def operate : Operation → Reply Handle × Bridge
  | .commit k p o => (.nothing, b.commit k p o)
  | .query k p => (.offset (b.table.query k p), b)
  | .queryAll k => (.offsets (some (b.table.queryAll k)), b)
  | .cloneGroup source dest topic =>
    (.nothing, { b with table := b.table.cloneGroup source dest topic })
  | .topicsOf group => (.names (b.table.topicsOf group), b)
  | .groupsOf topic => (.names (b.table.groupsOf topic), b)
  | .deleteGroup group =>
    let (n, table) := b.table.deleteGroup group
    (.count n, { b with table })
  | .remove k =>
    let (offsets, table) := b.table.remove k
    (.offsets offsets, { b with table })
  | .snapshot => (.snapshot b.table.snapshot, b)
  | .restore s =>
    let table := b.table.restore s
    (.count table.size, { b with table })
  | .regressions => (.count b.table.regressions, b)
  | .isSystemGroup group => (.flag (b.isSystemGroup group), b)
  | .register tp =>
    match b.store.object? tp with
    | none => (.noPartition, b)
    | some n => b.registered ⟨n, none⟩
  | .registerDetached p =>
    let (h, b) := b.detach p
    b.registered h
  | .unregister tp =>
    let cache := (b.cache.invalidate tp).2
    (.partitions (cache.cachedPartitions tp.topic), { b with cache })
  | .unregisterTopic topic =>
    let cache := (b.cache.invalidateTopic topic).2
    (.partitions (cache.cachedPartitions topic), { b with cache })
  | .cached tp => (.handle (b.cache.get? tp), b)
  | .insertDetached p =>
    let (h, b) := b.detach p
    let (h, cache) := b.cache.insertIfAbsent p.name h
    (.handle (some h), { b with cache })
  | .refreshDetached p =>
    let (h, b) := b.detach p
    let cache := b.cache.refresh p.name h
    (.handle (cache.get? p.name), { b with cache })
  | .invalidate tp =>
    let (h, cache) := b.cache.invalidate tp
    (.handle h, { b with cache })
  | .invalidateTopic topic =>
    let (n, cache) := b.cache.invalidateTopic topic
    (.count n, { b with cache })
  | .cachedPartitions topic => (.partitions (b.cache.cachedPartitions topic), b)
  | .isResolving tp => (.flag (b.flights.isInFlight tp), b)
  | .inspect h =>
    (.loaded (b.store.partition h).name (b.store.firstPosition h) (b.store.lastPosition h)
      (b.store.partition h).cursors.toList, b)
  | .subscribe k => (.nothing, { b with subscriptions := b.subscriptions.insert k })
  | .unsubscribe k =>
    (.flag (b.subscriptions.contains k), { b with subscriptions := b.subscriptions.erase k })
  | .isSubscribed k => (.flag (b.subscriptions.contains k), b)
  | .createPartition tp =>
    let (n, store) := b.store.createPartition tp
    (.handle (some ⟨n, none⟩), { b with store })
  | .deletePartition tp =>
    let (existed, store) := b.store.deletePartition tp
    (.flag existed, { b with store })
  | .setRange tp first last => b.onPartition tp fun p => (.nothing, p.setRange first last)
  | .append tp => b.onPartition tp fun p => (.position (some p.append.last), p.append)
  | .roll tp => b.onPartition tp fun p => (.position (some p.roll.last), p.roll)
  | .trim tp x => b.onPartition tp fun p => (.position (some (p.trim x).first), p.trim x)
  | .range tp => b.atPartition tp fun p => .range (.ok p.first) (.ok p.last)
  | .cursor tp group => b.atPartition tp fun p => .position (p.cursor? group)
  | .openCursor tp group => b.onPartition tp fun p =>
    let p := p.openCursor group
    (.cursor group ((p.cursor? group).getD p.last), p)
  | .resetCursor tp group x => b.onPartition tp fun p =>
    (.position (some x), (p.openCursor group).resetCursor group x)
  | .cursors tp => b.atPartition tp fun p => .cursors p.cursors.toList
  | .getPartition tp owner => (.ofAttempt .handle (b.store.getPartition tp owner), b)
  | .setUnavailable tp yes => (.nothing, { b with store := { b.store with
      unavailable := if yes then b.store.unavailable.insert tp
        else b.store.unavailable.erase tp } })
  | .failNext n => (.nothing, { b with store := { b.store with failing := n } })
  | .setLookupDelay ms => (.nothing, { b with store := { b.store with lookupDelay := ms } })
  | .lookups => (.count b.store.lookups, b)
  | .setFault tp fault => (.nothing, { b with store := { b.store with
      faults := match fault with
        | some f => b.store.faults.insert tp f
        | none => b.store.faults.erase tp } })
  | .advanceClock ms => (.nothing, { b with manualClock := b.manualClock.map (· + ms) })
  | .metrics => (.metrics b.metrics, b)

end Bridge

end GroupOffsets
