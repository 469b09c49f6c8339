import GroupOffsets.Bridge.Call
import GroupOffsets.Broadcast

/-!
# The service

A bridge in service runs two loops.  One sweeps the table, the other persists it, each at every tick
of an interval of its own; the first tick comes one interval after the loop began, and a pass that
takes long does not shift the ticks after it.

Both loops listen for the shutdown signal.  The sweep loop stops as soon as it hears it, the persist
loop after one more pass: whatever was committed before the signal is written by that pass.  The
service is over when both loops have ended.
-/

namespace GroupOffsets

/-- What a bridge does again and again. -/
inductive Loop where
  /-- It has not run yet. -/
  | begun
  /-- It waits for the next tick, if there are ticks, and for the signal. -/
  | idle (tickAt : Option Nat)
  /-- A pass runs. -/
  | passing (tickAt : Option Nat) (pass : Call)
  | ended

/-- What a waiting loop wakes up to. -/
inductive Loop.Wake where
  | tick
  | signal
  deriving DecidableEq, Repr

namespace Loop

/-- What a loop wakes up to, given whether the tick is due and whether the signal was heard.  If
both are, `tickFirst` says which one it takes. -/
def wake (tickFirst due heard : Bool) : Option Wake :=
  if due && (tickFirst || !heard) then some .tick
  else if heard then some .signal
  else none

/-- Whether a tick is due. -/
def isDue (now : Nat) (tickAt : Option Nat) : Bool := tickAt.any (· ≤ now)

/-- Whether a step would leave the loop as it is. -/
def isBlocked (b : Bridge) (now : Nat) (heard : Bool) : Loop → Bool
  | begun => false
  | idle tickAt => !isDue now tickAt && !heard
  | passing _ pass => pass.isBlocked b now
  | ended => true

/-- The time at which a blocked loop goes on in any case. -/
def timer : Loop → Option Nat
  | idle tickAt => tickAt
  | passing _ pass => pass.timer
  | begun | ended => none

end Loop

structure Service where
  /-- The interval of the sweep loop, in milliseconds. -/
  sweepEvery : Nat
  /-- The interval of the persist loop; zero for none. -/
  persistEvery : Nat
  /-- The shutdown signal, which the sweep loop hears as listener 0 and the persist loop as
  listener 1. -/
  signal : Broadcast
  sweeper : Loop
  persister : Loop
  /-- The report of the persist pass at shutdown, once it is done. -/
  final : Option PersistReport

namespace Service

/-- The listener of the sweep loop. -/
def sweepEar : Nat := 0

/-- The listener of the persist loop. -/
def persistEar : Nat := 1

/-- A service that starts. -/
def start (sweepEvery persistEvery : Nat) : Service where
  sweepEvery := sweepEvery
  persistEvery := persistEvery
  signal := ⟨0, false, #[⟨0, false⟩, ⟨0, false⟩]⟩
  sweeper := .begun
  persister := .begun
  final := none

variable (s : Service)

/-- Tells both loops to shut down. -/
def stop : Service := { s with signal := s.signal.send.2 }

/-- Whether both loops have ended. -/
def isOver : Bool :=
  match s.sweeper, s.persister with
  | .ended, .ended => true
  | _, _ => false

variable (b : Bridge) (tickFirst : Bool) (order : Itinerary) (now : Nat)

/-- One step of the sweep loop.  A loop without an interval cannot tick, and ends. -/
def stepSweeper : Bridge × Service :=
  match s.sweeper with
  | .begun =>
    (b, { s with
      sweeper := if s.sweepEvery = 0 then .ended else .idle (some (now + s.sweepEvery)) })
  | .idle tickAt =>
    match Loop.wake tickFirst (Loop.isDue now tickAt) (s.signal.isReady sweepEar) with
    | none => (b, s)
    | some .tick =>
      (b, { s with sweeper := .passing (tickAt.map (· + s.sweepEvery)) (.begun .sweep) })
    | some .signal =>
      (b, { s with signal := (s.signal.recv sweepEar).2, sweeper := .ended })
  | .passing tickAt pass =>
    let (b, pass) := b.stepCall order now pass
    (b, { s with sweeper := match pass.reply? with
      | some _ => .idle tickAt
      | none => .passing tickAt pass })
  | .ended => (b, s)

/-- One step of the persist loop.  It ends after a pass if it has heard the signal, which it only
listens for before a pass. -/
def stepPersister : Bridge × Service :=
  match s.persister with
  | .begun =>
    (b, { s with
      persister := .idle (if s.persistEvery = 0 then none else some (now + s.persistEvery)) })
  | .idle tickAt =>
    match Loop.wake tickFirst (Loop.isDue now tickAt) (s.signal.isReady persistEar) with
    | none => (b, s)
    | some .tick =>
      (b, { s with persister := .passing (tickAt.map (· + s.persistEvery)) (.begun .persist) })
    | some .signal =>
      (b, { s with
        signal := (s.signal.recv persistEar).2
        persister := .passing tickAt (.begun .persist) })
  | .passing tickAt pass =>
    let (b, pass) := b.stepCall order now pass
    (b, match pass.reply? with
      | some reply =>
        if s.signal.isShutdown persistEar then
          { s with persister := .ended, final := reply.report? }
        else { s with persister := .idle tickAt }
      | none => { s with persister := .passing tickAt pass })
  | .ended => (b, s)

end Service

end GroupOffsets
