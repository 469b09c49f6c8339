import GroupOffsets.Flight
import GroupOffsets.Flights
import GroupOffsets.Metrics
import GroupOffsets.Pass.Persist
import GroupOffsets.Pass.Sweep
import GroupOffsets.Pass.Watermark

/-!
# The bridge

All that one bridge keeps: the table of committed offsets, the cache of partition handles with the
resolutions in flight, who subscribes to what, the store below, and its counters.  This module has
the operations that do not wait for anything; `GroupOffsets.Bridge.Call` has those that do.
-/

namespace GroupOffsets

/-- A queue for something that one caller holds at a time.  Callers are told apart by the number
that they draw when they ask. -/
structure Turnstile where
  holder : Option Nat
  waiting : List Nat
  next : Nat
  deriving DecidableEq, Repr

namespace Turnstile

instance : EmptyCollection Turnstile := ⟨⟨none, [], 0⟩⟩

variable (q : Turnstile)

/-- A new caller asks; it holds at once if nobody else does. -/
def enter : Nat × Turnstile :=
  match q.holder with
  | none => (q.next, { q with holder := some q.next, next := q.next + 1 })
  | some _ => (q.next, { q with waiting := q.waiting ++ [q.next], next := q.next + 1 })

/-- A caller is done, or gives up waiting.  After the holder, the one who has waited longest
holds. -/
def leave (n : Nat) : Turnstile :=
  if q.holder = some n then { q with holder := q.waiting.head?, waiting := q.waiting.tail }
  else { q with waiting := q.waiting.filter (· != n) }

end Turnstile

/-- What a bridge is set up with. -/
structure Bridge.Settings where
  /-- Groups whose name begins like this belong to the system: their offsets are not written to the
  store and not seeded from it. -/
  systemGroups : List String
  retry : Backoff.Config
  /-- How long a caller waits for a partition, in milliseconds. -/
  callerWait : Nat
  deriving DecidableEq, Repr

structure Bridge where
  settings : Bridge.Settings
  store : Store
  subscriptions : Subscriptions
  cache : Cache
  flights : Flights TopicPartition Resolution
  /-- The resolutions in progress, by the number of their work. -/
  aloft : Std.ExtTreeMap Nat Flight
  table : OffsetTable
  metrics : Metrics
  /-- Persist passes run one at a time. -/
  persistTurn : Turnstile
  /-- What the clock of the retry schedules shows, if it is moved by hand. -/
  manualClock : Option Nat

namespace Bridge

/-- A bridge over a store, with nothing in its table. -/
def new (settings : Settings) (store : Store) (manualClock : Option Nat) : Bridge where
  settings := settings
  store := store
  subscriptions := ∅
  cache := ∅
  flights := ∅
  aloft := ∅
  table := ∅
  metrics := ∅
  persistTurn := ∅
  manualClock := manualClock

variable (b : Bridge)

/-- What the clock of the retry schedules shows. -/
def clock (now : Nat) : Nat := b.manualClock.getD now

/-- Whether a group belongs to the system. -/
def isSystemGroup (group : String) : Bool :=
  b.settings.systemGroups.any fun start => start.toList.isPrefixOf group.toList

/-- Commits an offset. -/
def commit (k : GroupTopic) (p : Int32) (o : Offset) : Bridge :=
  let (table, metrics) := b.metrics.commit b.table k p o
  { b with table, metrics }

/-! ## Registration -/

/-- What registering made of a cursor. -/
inductive Seeding where
  | seeded
  /-- The group has an offset already. -/
  | kept
  /-- The cursor's position has no offset. -/
  | refused (e : Failure)
  deriving DecidableEq, Repr

/-- Seeds the table with the cursor of a group. -/
def seedCursor (t : OffsetTable) (tp : TopicPartition) (group : String) (position : Position) :
    Seeding × OffsetTable :=
  match position.encode with
  | .error e => (.refused e, t)
  | .ok o =>
    match t.seedIfAbsent ⟨group, tp.topic⟩ tp.partition o with
    | (true, t) => (.seeded, t)
    | (false, t) => (.kept, t)

/-- Seeds the table with cursors, and says what became of each. -/
def seedCursors (t : OffsetTable) (tp : TopicPartition) :
    List (String × Position) → List (String × Seeding) × OffsetTable
  | [] => ([], t)
  | (group, position) :: cursors =>
    let (seeding, t) := seedCursor t tp group position
    let (seedings, t) := seedCursors t tp cursors
    ((group, seeding) :: seedings, t)

/-- Makes a loaded partition known.  It is cached, unless another handle on it is, and the cursors
of the non-system groups on the cached one seed the table where nothing is committed. -/
def register (order : List Nat) (h : Handle) : Handle × List (String × Seeding) × Bridge :=
  let tp := (b.store.partition h).name
  let (h, cache) := b.cache.insertIfAbsent tp h
  let cursors := (arrange order (b.store.partition h).cursors.toList).filter
    fun c => !b.isSystemGroup c.1
  let (seedings, table) := seedCursors b.table tp cursors
  (h, seedings, { b with cache, table })

/-! ## Cursors -/

/-- Moves the cursor of a group on a partition that was resolved, or not. -/
def moveCursor (r : Attempt Handle) (group : String) (x : Position) : Bool × Bridge :=
  match r with
  | .error _ => (false, b)
  | .ok h =>
    match b.store.writeCursor h group x with
    | (.ok (), store) => (true, { b with store })
    | (.error _, store) => (false, { b with store })

/-! ## Resolution -/

/-- Joins the resolution of a partition, or starts one. -/
def joinFlight (tp : TopicPartition) : Nat × Bridge :=
  let (ticket, flights) := b.flights.join tp
  (ticket.call, { b with
    flights
    aloft := if ticket.leader then b.aloft.insert ticket.call (.board b.settings.retry tp)
      else b.aloft })

/-- A resolution ends, with a value or without one. -/
def land (n : Nat) (outcome : Option Resolution) : Bridge :=
  { b with flights := b.flights.finish n outcome, aloft := b.aloft.erase n }

/-- A resolution goes on after a lookup, `none` for one without an answer in time. -/
def conclude (draw : Option Nat) (now n : Nat) (f : Flight) (l : Option Lookup) : Bridge :=
  match f.judge b.settings.retry draw (b.clock now) l with
  | (.settled (.found h), f) =>
    let (h, cache) := b.cache.insertResolved f.target h f.generation
    { b with cache, metrics := b.metrics.noteResolutionLatency }.land n (some (.found h))
  | (.settled r, _) => b.land n (some r)
  | (.died, _) => b.land n none
  | (.retry delay, f) => { b with
      aloft := b.aloft.insert n { f with phase := .pausing (now + delay) } }

/-- The owner answers a lookup. -/
def answerLookup (draw : Option Nat) (now n : Nat) (f : Flight) : Bridge :=
  let (l, store) := b.store.lookup f.target
  { b with store }.conclude draw now n f (some l)

/-- A resolution begins a lookup. -/
def beginLookup (draw : Option Nat) (now n : Nat) (f : Flight) : Bridge :=
  let b := { b with store := b.store.beginLookup }
  if b.store.lookupDelay = 0 then b.answerLookup draw now n f
  else
    let giveUpAt := now + f.budget b.settings.retry (b.clock now)
    let f := { f with phase := .locating (now + b.store.lookupDelay) giveUpAt }
    { b with aloft := b.aloft.insert n f }

/-- One step of the resolution with number `n`, from one place where it waits to the next.  A
lookup that is answered at the very moment when it would be given up is answered. -/
def stepFlight (draw : Option Nat) (now n : Nat) : Bridge :=
  match b.aloft[n]? with
  | none => b
  | some f =>
    match f.phase with
    | .boarding =>
      match b.cache.get? f.target with
      | some h => b.land n (some (.found h))
      | none =>
        b.beginLookup draw now n
          (f.depart b.settings.retry (b.clock now) (b.cache.generation f.target.topic))
    | .locating answerAt giveUpAt =>
      if answerAt ≤ now then b.answerLookup draw now n f
      else if giveUpAt ≤ now then b.conclude draw now n f none
      else b
    | .pausing upTo => if upTo ≤ now then b.beginLookup draw now n f else b

end Bridge

end GroupOffsets
