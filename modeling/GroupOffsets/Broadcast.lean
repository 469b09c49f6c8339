/-!
# The shutdown broadcast

One sender tells any number of listeners to shut down.  The channel keeps only the newest message:
a listener that was too slow for more of them learns that it lags instead, and one whose sender is
gone learns that.  Each of the three means shutdown, and a listener that saw it stays shut down.
-/

namespace GroupOffsets

/-- What a listener receives. -/
inductive Delivery where
  | message
  /-- Messages were lost, this many of them. -/
  | lagged (missed : Nat)
  | closed
  deriving DecidableEq, Repr

structure Listener where
  /-- How many messages were sent before the ones that this listener still has to see. -/
  seen : Nat
  isShutdown : Bool
  deriving DecidableEq, Repr

structure Broadcast where
  sent : Nat
  closed : Bool
  listeners : Array Listener
  deriving Repr

/-- What became of a message. -/
inductive Sending where
  | delivered (listeners : Nat)
  | noListeners
  | noSender
  deriving DecidableEq, Repr

namespace Broadcast

instance : EmptyCollection Broadcast := ⟨⟨0, false, #[]⟩⟩

variable (s : Broadcast)

/-- A new listener, with its number; it hears only what is sent from now on. -/
def subscribe : Option (Nat × Broadcast) :=
  if s.closed then none
  else some (s.listeners.size, { s with listeners := s.listeners.push ⟨s.sent, false⟩ })

def send : Sending × Broadcast :=
  if s.closed then (.noSender, s)
  else if s.listeners.isEmpty then (.noListeners, s)
  else (.delivered s.listeners.size, { s with sent := s.sent + 1 })

/-- The sender goes away. -/
def close : Broadcast := { s with closed := true }

/-- What a listener would receive now, if anything. -/
def delivery? (l : Listener) : Option Delivery :=
  if s.sent = l.seen + 1 then some .message
  else if l.seen < s.sent then some (.lagged (s.sent - l.seen - 1))
  else if s.closed then some .closed
  else none

/-- Whether receiving would return at once. -/
def isReady (n : Nat) : Bool :=
  match s.listeners[n]? with
  | some l => l.isShutdown || (s.delivery? l).isSome
  | none => false

/-- Listener `n` receives, if it can without waiting, and says whether it did. -/
def recv (n : Nat) : Bool × Broadcast :=
  if s.isReady n then
    (true, { s with listeners := s.listeners.modify n fun l =>
      if l.isShutdown then l else ⟨s.sent, true⟩ })
  else (false, s)

def isShutdown (n : Nat) : Bool :=
  match s.listeners[n]? with
  | some l => l.isShutdown
  | none => false

end Broadcast

end GroupOffsets
