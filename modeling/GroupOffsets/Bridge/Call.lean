import GroupOffsets.Bridge.Reply

/-!
# Calls

The operations of a bridge that wait: for a partition to be resolved, for their turn, or for time to
pass.  A call is a machine that goes one step at a time, from one place where it could wait to the
next; between two steps anything may happen.

A call that needs a partition takes it from the cache, or else joins the resolution in flight and
waits for it a bounded time.  The resolution goes on when the wait is over.
-/

namespace GroupOffsets

/-- What a caller asks of a bridge. -/
inductive Request where
  | resolve (tp : TopicPartition)
  /-- The offset of the earliest retained record. -/
  | minOffset (tp : TopicPartition)
  /-- The offset of the last record. -/
  | maxOffset (tp : TopicPartition)
  | sweep
  | persist
  | watermark (topic : String) (excluded : List String)
  | locateOwner (tp : TopicPartition)
  | sleep (ms : Nat)
  deriving DecidableEq, Repr

/-- What a call needs a partition for. -/
inductive Purpose where
  | resolve (tp : TopicPartition)
  | minOffset (tp : TopicPartition)
  | maxOffset (tp : TopicPartition)
  | sweep (s : Sweep)
  /-- A persist pass, with the number by which it holds its turn. -/
  | persist (turn : Nat) (s : Persist)
  | watermark (s : Watermark)

/-- The partition that a call needs. -/
def Purpose.target : Purpose → TopicPartition
  | resolve tp | minOffset tp | maxOffset tp => tp
  | sweep s => s.target
  | persist _ s => s.target
  | watermark s => s.target

/-- A call in progress. -/
inductive Call where
  /-- It has not run yet. -/
  | begun (r : Request)
  /-- It is about to ask for a partition. -/
  | asking (p : Purpose)
  /-- It waits for a resolution in flight, but not beyond the deadline. -/
  | waiting (p : Purpose) (flight deadline : Nat)
  /-- A persist pass waits for its turn. -/
  | queued (turn : Nat)
  /-- It waits for a time, for nothing else or for the owner of a partition to answer. -/
  | sleeping (upTo : Nat) (locating : Option TopicPartition)
  | answered (r : Reply Handle)

namespace Bridge

variable (b : Bridge)

/-- The partition that a resolution in flight came to, or nothing if the caller's wait was over
first.  Callers are told of a partition that does not exist, and else only that it took too long. -/
def receive (tp : TopicPartition) (outcome : Option (Option Resolution)) :
    Attempt Handle × Bridge :=
  match outcome with
  | some (some (.found h)) => (.ok h, b)
  | some (some .notFound) => (.error (.unknownPartition tp.text), b)
  | _ => (.error (.resolutionTimeout tp.topic tp.partition),
      { b with metrics := b.metrics.noteResolutionTimeout })

/-- The retained minimum of a partition that was resolved, or not. -/
def minOffset (r : Attempt Handle) : Attempt Offset :=
  match r with
  | .error e => .error e
  | .ok h =>
    match b.store.firstPosition h with
    | .error e => .error e
    | .ok p => p.encode

/-- The last offset of a partition that was resolved, or not. -/
def maxOffset (r : Attempt Handle) : Attempt Offset :=
  match r with
  | .error e => .error e
  | .ok h =>
    match b.store.lastPosition h with
    | .error e => .error e
    | .ok p => p.encode

/-- A sweep pass asks for a partition, or is done. -/
def continueSweep : Progress Sweep (List GroupTopic) → Call
  | .asks s => .asking (.sweep s)
  | .done removed => .answered (.keys removed)

/-- A watermark query asks for a partition, or is done. -/
def continueWatermark : Progress Watermark PartitionOffsets → Call
  | .asks s => .asking (.watermark s)
  | .done marks => .answered (.offsets (some marks))

/-- A persist pass asks for a partition, or is done and gives up its turn.  What has failed since
its report stood at `before` is counted. -/
def continuePersist (turn : Nat) (before : PersistReport) (p : Progress Persist PersistReport) :
    Bridge × Call :=
  let failures := (Persist.reportOf p).failed - before.failed
  let b := { b with metrics := b.metrics.notePersistFailures failures }
  match p with
  | .asks s => (b, .asking (.persist turn s))
  | .done report => ({ b with persistTurn := b.persistTurn.leave turn }, .answered (.report report))

/-- A persist pass whose turn it is begins. -/
def startPersist (order : Itinerary) (turn : Nat) : Bridge × Call :=
  b.continuePersist turn ∅ (Persist.start order b.table b.isSystemGroup)

/-- A call goes on with the partition that it needed, or without it. -/
def deliver (order : Itinerary) (p : Purpose) (r : Attempt Handle) : Bridge × Call :=
  match p with
  | .resolve _ => (b, .answered (.ofAttempt (fun h => .handle (some h)) r))
  | .minOffset _ => (b, .answered (.ofAttempt (fun o => .offset (some o)) (b.minOffset r)))
  | .maxOffset _ => (b, .answered (.ofAttempt (fun o => .offset (some o)) (b.maxOffset r)))
  | .sweep s =>
    let (removed, table, progress) := s.answer order b.table b.subscriptions (b.minOffset r)
    let metrics := if removed then b.metrics.noteSweepRemoval else b.metrics
    ({ b with table, metrics }, continueSweep progress)
  | .persist turn s =>
    let (moved, b) := b.moveCursor r s.key.group s.position
    b.continuePersist turn s.report (s.answer order b.table b.isSystemGroup moved)
  | .watermark s => (b, continueWatermark (s.answer (b.minOffset r)))

/-- The owner of a partition answers. -/
def ownerAnswers (tp : TopicPartition) : Bridge × Call :=
  let (owner, store) := b.store.locateOwner tp
  ({ b with store }, .answered (.ofAttempt .text owner))

/-- A call begins. -/
def beginCall (order : Itinerary) (now : Nat) : Request → Bridge × Call
  | .resolve tp => (b, .asking (.resolve tp))
  | .minOffset tp => (b, .asking (.minOffset tp))
  | .maxOffset tp => (b, .asking (.maxOffset tp))
  | .sweep => (b, continueSweep (Sweep.start order b.table b.subscriptions))
  | .persist =>
    let (turn, persistTurn) := b.persistTurn.enter
    let b := { b with persistTurn }
    if persistTurn.holder = some turn then b.startPersist order turn else (b, .queued turn)
  | .watermark topic excluded =>
    (b, continueWatermark (Watermark.start order b.table topic excluded))
  | .locateOwner tp =>
    let b := { b with store := b.store.beginLookup }
    if b.store.lookupDelay = 0 then b.ownerAnswers tp
    else (b, .sleeping (now + b.store.lookupDelay) (some tp))
  | .sleep ms => (b, .sleeping (now + ms) none)

/-- One step of a call.  A call that has to wait stays as it is. -/
def stepCall (order : Itinerary) (now : Nat) : Call → Bridge × Call
  | .begun r => b.beginCall order now r
  | .asking p =>
    match b.cache.get? p.target with
    | some h => b.deliver order p (.ok h)
    | none =>
      let (n, b) := b.joinFlight p.target
      (b, .waiting p n (now + b.settings.callerWait))
  | .waiting p n deadline =>
    match b.flights.outcome? n with
    | some outcome =>
      let (r, b) := b.receive p.target (some outcome)
      b.deliver order p r
    | none =>
      if deadline ≤ now then
        let (r, b) := b.receive p.target none
        b.deliver order p r
      else (b, .waiting p n deadline)
  | .queued turn =>
    if b.persistTurn.holder = some turn then b.startPersist order turn else (b, .queued turn)
  | .sleeping upTo locating =>
    if upTo ≤ now then
      match locating with
      | some tp => b.ownerAnswers tp
      | none => (b, .answered .nothing)
    else (b, .sleeping upTo locating)
  | .answered r => (b, .answered r)

/-- Gives up a call.  A resolution that it waited for goes on; a persist pass gives up its turn. -/
def cancelCall : Call → Bridge
  | .asking (.persist turn _) | .waiting (.persist turn _) _ _ | .queued turn =>
    { b with persistTurn := b.persistTurn.leave turn }
  | _ => b

end Bridge

namespace Call

/-- Whether a step would leave the call as it is. -/
def isBlocked (b : Bridge) (now : Nat) : Call → Bool
  | .waiting _ n deadline => (b.flights.outcome? n).isNone && now < deadline
  | .queued turn => b.persistTurn.holder != some turn
  | .sleeping upTo _ => now < upTo
  | .answered _ => true
  | .begun _ | .asking _ => false

/-- The time at which a blocked call goes on in any case. -/
def timer : Call → Option Nat
  | .waiting _ _ deadline => some deadline
  | .sleeping upTo _ => some upTo
  | _ => none

/-- The answer, once there is one. -/
def reply? : Call → Option (Reply Handle)
  | .answered r => some r
  | _ => none

end Call

namespace Flight

/-- Whether a step would leave the resolution as it is. -/
def isBlocked (now : Nat) (f : Flight) : Bool :=
  match f.phase with
  | .boarding => false
  | .locating answerAt giveUpAt => now < answerAt && now < giveUpAt
  | .pausing upTo => now < upTo

/-- The time at which a blocked resolution goes on. -/
def timer (f : Flight) : Option Nat :=
  match f.phase with
  | .boarding => none
  | .locating answerAt giveUpAt => some (Nat.min answerAt giveUpAt)
  | .pausing upTo => some upTo

end Flight

end GroupOffsets
