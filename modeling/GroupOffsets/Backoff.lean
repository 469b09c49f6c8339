/-!
# The retry schedule

Delays between the attempts of one lookup.  They start at `initial` and double up to `max`.  The
delay that would end after `mandatoryStop`, counted from the first one, is shortened to end there,
and is the last.  `maxAttempts` bounds the number of delays whatever the time.  No delay is shorter
than `initial`.

Each delay may be cut at random by up to a tenth, in whole milliseconds; `Backoff.next` takes the
random number as an argument, `none` for a schedule without cuts.  Times are in milliseconds, unless
the clock is finer than that: `perMilli` of its units make a millisecond.

There are bounds to how long a time can be and to what a clock can show.  A call that comes to one
of them breaks down, and so does one that has no cuts to draw from: `Backoff.next?` is a call with
all this, and `Backoff.next` what it gives if it does not break down.
-/

namespace GroupOffsets

structure Backoff.Config where
  initial : Nat
  max : Nat
  mandatoryStop : Nat
  maxAttempts : Nat
  deriving DecidableEq, Repr

def Backoff.Config.standard : Backoff.Config := ⟨100, 10000, 10000, 10⟩

/-- A schedule in progress. -/
structure Backoff where
  /-- The delay that comes next, before it is shortened or cut. -/
  upcoming : Nat
  /-- When the first delay was asked for. -/
  firstAt : Option Nat
  /-- Whether the last delay was the one that ends at the mandatory stop. -/
  stopMade : Bool
  attempts : Nat
  deriving DecidableEq, Repr

namespace Backoff

variable (cfg : Config)

/-- A schedule that has not begun. -/
def start : Backoff := ⟨cfg.initial, none, false, 0⟩

/-- The time since the first delay was asked for. -/
def elapsed (b : Backoff) (now : Nat) : Nat :=
  match b.firstAt with
  | some first => now - first
  | none => 0

/-- No time is as long as this: seconds are counted in 64 bits. -/
def timeBound (perMilli : Nat := 1) : Nat := UInt64.size * 1000 * perMilli

/-- No clock shows this moment, or a later one: there the count of seconds has a sign. -/
def clockBound (perMilli : Nat := 1) : Nat := UInt64.size / 2 * 1000 * perMilli

/-- Whether a delay is long enough to be cut. -/
def isLong (delay : Nat) (perMilli : Nat := 1) : Bool := 10 < delay / perMilli

/-- How many cuts there are to draw from, of which only 64 bits are kept.  None of the cuts takes a
tenth of the delay. -/
def cuts (delay : Nat) (perMilli : Nat := 1) : Nat := delay / perMilli / 10 % UInt64.size

/-- What `draw` cuts off a delay, if there is something to draw from. -/
def cut (draw : Option Nat) (delay : Nat) (perMilli : Nat := 1) : Nat :=
  match draw with
  | some n =>
    if isLong delay perMilli && 0 < cuts delay perMilli then n % cuts delay perMilli * perMilli
    else 0
  | none => 0

/-- Whether no delay is left to give. -/
def isSpent (b : Backoff) : Bool := b.stopMade || cfg.maxAttempts ≤ b.attempts

/-- Whether the coming delay would end after the mandatory stop. -/
def overruns (b : Backoff) (now : Nat) : Bool := cfg.mandatoryStop < b.elapsed now + b.upcoming

/-- The coming delay, shortened to end at the mandatory stop if it would overrun it. -/
def fitted (b : Backoff) (now : Nat) : Nat :=
  if b.overruns cfg now then Nat.max cfg.initial (cfg.mandatoryStop - b.elapsed now) else b.upcoming

/-- Whether a bound is passed on the way to a delay: when the coming delay is doubled, when the
clock is read, or when the coming delay is added to the time that has gone by. -/
def overflows (b : Backoff) (now : Nat) (perMilli : Nat := 1) : Bool :=
  b.upcoming < cfg.max && timeBound perMilli ≤ b.upcoming * 2
    || clockBound perMilli ≤ now
    || timeBound perMilli ≤ b.elapsed now + b.upcoming

/-- Whether a delay is long enough to be cut, and yet there are no cuts to draw from. -/
def lacksCuts (delay : Nat) (perMilli : Nat := 1) : Bool :=
  isLong delay perMilli && cuts delay perMilli == 0

/-- Whether a call breaks down.  One that has no delay left to give does not. -/
def breaks (drawing : Bool) (now : Nat) (b : Backoff) (perMilli : Nat := 1) : Bool :=
  !b.isSpent cfg &&
    (b.overflows cfg now perMilli || drawing && lacksCuts (b.fitted cfg now) perMilli)

/-- What a call gives that does not break down: the delay before the next attempt, if there is to be
one. -/
def next (draw : Option Nat) (now : Nat) (b : Backoff) (perMilli : Nat := 1) :
    Option Nat × Backoff :=
  if b.isSpent cfg then (none, b)
  else
    let delay := b.fitted cfg now
    (some (Nat.max (delay - cut draw delay perMilli) cfg.initial),
      { upcoming := if b.upcoming < cfg.max then Nat.min (b.upcoming * 2) cfg.max else b.upcoming
        firstAt := some (b.firstAt.getD now)
        stopMade := b.overruns cfg now
        attempts := b.attempts + 1 })

/-- A call for the delay before the next attempt.  Nothing comes of one that breaks down. -/
def next? (draw : Option Nat) (now : Nat) (b : Backoff) (perMilli : Nat := 1) :
    Option (Option Nat × Backoff) :=
  if b.breaks cfg draw.isSome now perMilli then none else some (b.next cfg draw now perMilli)

/-- Begins the schedule anew. -/
def reset (_ : Backoff) : Backoff := start cfg

end Backoff

end GroupOffsets
