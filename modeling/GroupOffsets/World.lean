import GroupOffsets.Bridge.Operation
import GroupOffsets.Service

/-!
# Worlds

A bridge with all that runs on it: the calls of its users, the resolutions in flight, and the loops
of its service.  Everything that can happen to a world is an `Event`, and a run of a world is a list
of events with the choices that were left open.  Any order of events is allowed; a task that is
stepped while it has to wait stays as it is.
-/

namespace GroupOffsets

structure World where
  /-- The time, in milliseconds. -/
  now : Nat
  bridge : Bridge
  /-- Every call that was not given up, by number. -/
  calls : Std.ExtTreeMap Nat Call
  /-- The number of the next call. -/
  nextCall : Nat
  service : Option Service

namespace World

/-- A world in which nothing has happened yet. -/
def new (now : Nat) (bridge : Bridge) : World := ⟨now, bridge, ∅, 0, none⟩

/-- Something that runs, from one place where it could wait to the next. -/
inductive Task where
  | flight (n : Nat)
  | call (n : Nat)
  | sweeper
  | persister
  deriving DecidableEq, Repr

/-- What the events leave open. -/
structure Choice where
  /-- The random number for a delay. -/
  draw : Option Nat
  /-- What a loop takes first if a tick and the signal are both there. -/
  tickFirst : Bool
  /-- In which order entries and their partitions are visited. -/
  order : Itinerary

/-- No random numbers, and everything in its natural order. -/
def Choice.plain : Choice := ⟨none, true, .plain⟩

inductive Event where
  | operate (op : Operation)
  | call (r : Request)
  | step (t : Task)
  /-- A call is given up. -/
  | cancel (n : Nat)
  /-- The service starts; the intervals of its loops are in milliseconds. -/
  | serve (sweepEvery persistEvery : Nat)
  /-- The service is told to stop. -/
  | stop
  | elapse (ms : Nat)

variable (w : World)

/-- Puts an operation through. -/
def operate (op : Operation) : Reply Handle × World :=
  let (reply, bridge) := w.bridge.operate op
  (reply, { w with bridge })

/-- A new call, with its number. -/
def call (r : Request) : Nat × World :=
  (w.nextCall, { w with
    calls := w.calls.insert w.nextCall (.begun r)
    nextCall := w.nextCall + 1 })

/-- Runs a task up to the next place where it could wait. -/
def run (ch : Choice) : Task → World
  | .flight n => { w with bridge := w.bridge.stepFlight ch.draw w.now n }
  | .call n =>
    match w.calls[n]? with
    | none => w
    | some c =>
      let (bridge, c) := w.bridge.stepCall ch.order w.now c
      { w with bridge, calls := w.calls.insert n c }
  | .sweeper =>
    match w.service with
    | none => w
    | some s =>
      let (bridge, s) := s.stepSweeper w.bridge ch.tickFirst ch.order w.now
      { w with bridge, service := some s }
  | .persister =>
    match w.service with
    | none => w
    | some s =>
      let (bridge, s) := s.stepPersister w.bridge ch.tickFirst ch.order w.now
      { w with bridge, service := some s }

/-- Gives up a call. -/
def cancel (n : Nat) : World :=
  match w.calls[n]? with
  | none => w
  | some c => { w with bridge := w.bridge.cancelCall c, calls := w.calls.erase n }

/-- The world after an event. -/
def step (ch : Choice) : Event → World
  | .operate op => (w.operate op).2
  | .call r => (w.call r).2
  | .step t => w.run ch t
  | .cancel n => w.cancel n
  | .serve sweepEvery persistEvery => { w with service := some (.start sweepEvery persistEvery) }
  | .stop => { w with service := w.service.map Service.stop }
  | .elapse ms => { w with now := w.now + ms }

/-- The world after a run. -/
def steps (w : World) (es : List (Choice × Event)) : World := es.foldl (fun w e => w.step e.1 e.2) w

/-- The answer to a call, once there is one. -/
def reply? (n : Nat) : Option (Reply Handle) := (w.calls[n]?).bind Call.reply?

/-- Whether a step would leave a task as it is. -/
def isBlocked : Task → Bool
  | .flight n => ((w.bridge.aloft[n]?).map (Flight.isBlocked w.now)).getD true
  | .call n => ((w.calls[n]?).map (Call.isBlocked w.bridge w.now)).getD true
  | .sweeper =>
    (w.service.map fun s =>
      s.sweeper.isBlocked w.bridge w.now (s.signal.isReady Service.sweepEar)).getD true
  | .persister =>
    (w.service.map fun s =>
      s.persister.isBlocked w.bridge w.now (s.signal.isReady Service.persistEar)).getD true

/-- Every task of the world, the resolutions first. -/
def tasks : List Task :=
  w.bridge.aloft.keys.map .flight ++ w.calls.keys.map .call ++ [.sweeper, .persister]

/-- The number of steps after which one gives up waiting for a world to settle. -/
def patience : Nat := 10000000

/-- Runs tasks until every one of them has to wait, or for `fuel` steps. -/
def settle : (fuel : Nat) → World → World
  | 0, w => w
  | fuel + 1, w =>
    match w.tasks.find? fun t => !w.isBlocked t with
    | some t => settle fuel (w.run .plain t)
    | none => w

/-- When a task goes on if it waits for time to pass. -/
def timer : Task → Option Nat
  | .flight n => (w.bridge.aloft[n]?).bind Flight.timer
  | .call n => (w.calls[n]?).bind Call.timer
  | .sweeper => w.service.bind (·.sweeper.timer)
  | .persister => w.service.bind (·.persister.timer)

end World

end GroupOffsets
