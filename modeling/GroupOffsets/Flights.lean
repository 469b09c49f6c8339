import Std.Data.ExtTreeMap

/-!
# Single flights

Callers who ask for the same thing at the same time share one piece of work.  The first one for a
key starts the work, and those who come while it runs join it; all of them wait for its outcome.
The work belongs to none of them: a caller that goes away changes nothing for the others.

A key is free again as soon as its work has ended, also if it died without a value, and so a later
caller starts afresh.
-/

namespace GroupOffsets

/-- A caller's share in a piece of work. -/
structure Ticket where
  call : Nat
  /-- Whether this caller started the work. -/
  leader : Bool
  deriving DecidableEq, Repr

/-- The pieces of work by number, and which of them a new caller joins. -/
structure Flights (κ ν : Type) [Ord κ] where
  /-- The work that a caller for a key joins. -/
  registered : Std.ExtTreeMap κ Nat
  /-- The running work, with its keys. -/
  works : Std.ExtTreeMap Nat κ
  /-- How the work that ended did so: with a value, or without one. -/
  outcomes : Std.ExtTreeMap Nat (Option ν)
  /-- The number of the next work. -/
  next : Nat

namespace Flights

variable {κ ν : Type} [Ord κ] [Std.TransOrd κ]

instance : EmptyCollection (Flights κ ν) := ⟨⟨∅, ∅, ∅, 0⟩⟩

variable (s : Flights κ ν)

/-- Joins the work that runs for a key, or starts one. -/
def join (k : κ) : Ticket × Flights κ ν :=
  match s.registered[k]? with
  | some call => (⟨call, false⟩, s)
  | none => (⟨s.next, true⟩, { s with
      registered := s.registered.insert k s.next
      works := s.works.insert s.next k
      next := s.next + 1 })

/-- Ends a running work: its key becomes free, and then its outcome is known. -/
def finish (call : Nat) (outcome : Option ν) : Flights κ ν :=
  match s.works[call]? with
  | none => s
  | some k => { s with
      registered := s.registered.erase k
      works := s.works.erase call
      outcomes := s.outcomes.insert call outcome }

/-- How a work ended, if it has. -/
def outcome? (call : Nat) : Option (Option ν) := s.outcomes[call]?

/-- How many keys have a running work. -/
def inFlight : Nat := s.registered.size

def isInFlight (k : κ) : Bool := s.registered.contains k

end Flights

/-- What a caller has done with its ticket. -/
inductive Watch where
  | idle
  | waiting
  | gone
  deriving DecidableEq, Repr

/-- What a caller can tell about the work that it joined. -/
inductive Sighting (ν : Type) where
  | notWaiting
  | pending
  | ended (value : Option ν)
  | dropped
  deriving DecidableEq, Repr

/-- Flights together with the callers who hold tickets for them, numbered as they joined. -/
structure Lounge (κ ν : Type) [Ord κ] where
  flights : Flights κ ν
  callers : Array (Ticket × Watch)

namespace Lounge

variable {κ ν : Type} [Ord κ] [Std.TransOrd κ]

instance : EmptyCollection (Lounge κ ν) := ⟨⟨∅, #[]⟩⟩

variable (s : Lounge κ ν)

/-- A new caller for a key, with its number. -/
def join (k : κ) : Nat × Ticket × Lounge κ ν :=
  let (ticket, flights) := s.flights.join k
  (s.callers.size, ticket, ⟨flights, s.callers.push (ticket, .idle)⟩)

/-- Ends the work that caller `n` started, if there is one and it still runs. -/
def finish (n : Nat) (outcome : Option ν) : Option (Lounge κ ν) :=
  match s.callers[n]? with
  | some (ticket, _) =>
    if ticket.leader && s.flights.works.contains ticket.call then
      some { s with flights := s.flights.finish ticket.call outcome }
    else none
  | none => none

/-- What caller `n` can tell. -/
def sight (n : Nat) : Sighting ν :=
  match s.callers[n]? with
  | some (_, .idle) => .notWaiting
  | some (ticket, .waiting) =>
    match s.flights.outcome? ticket.call with
    | some outcome => .ended outcome
    | none => .pending
  | some (_, .gone) | none => .dropped

/-- Caller `n` begins to wait. -/
def wait (n : Nat) : Lounge κ ν :=
  { s with callers := s.callers.modify n fun
      | (ticket, .idle) => (ticket, .waiting)
      | caller => caller }

/-- Caller `n` goes away. -/
def drop (n : Nat) : Lounge κ ν :=
  { s with callers := s.callers.modify n fun (ticket, _) => (ticket, .gone) }

end Lounge

end GroupOffsets
