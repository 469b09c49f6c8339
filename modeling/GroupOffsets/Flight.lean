import GroupOffsets.Backoff
import GroupOffsets.Cache

/-!
# Resolving a partition

A resolution looks a partition up in the store until the store says whether there is one.  Lookups
that fail, or take too long, are tried again by the retry schedule; when that is spent, so is the
resolution.

`Flight` is a resolution in progress.  It stops where it has to wait, and `Flight.judge` says how it
goes on after a lookup: it settles, or it pauses before the next one.  The times of the settings are
64-bit numbers of milliseconds, for which no call for a delay breaks down: `Backoff.next` is all of
it here.
-/

namespace GroupOffsets

/-- How a resolution ends. -/
inductive Resolution where
  | found (h : Handle)
  /-- The store has no such partition. -/
  | notFound
  /-- The retry schedule is spent, after this many delays. -/
  | exhausted (attempts : Nat)
  deriving DecidableEq, Repr

/-- Where a resolution waits. -/
inductive Flight.Phase where
  /-- It has not run yet. -/
  | boarding
  /-- A lookup will be answered at `answerAt`; the resolution waits for it until `giveUpAt`. -/
  | locating (answerAt giveUpAt : Nat)
  /-- The next lookup begins at this time. -/
  | pausing (upTo : Nat)
  deriving DecidableEq, Repr

/-- A resolution in progress. -/
structure Flight where
  target : TopicPartition
  /-- The generation of the topic when the resolution began. -/
  generation : Nat
  /-- When lookups no longer get more than the initial delay to answer, on the schedule's clock. -/
  deadline : Nat
  backoff : Backoff
  phase : Flight.Phase
  deriving DecidableEq, Repr

namespace Flight

variable (cfg : Backoff.Config)

/-- A resolution that has not run yet. -/
def board (target : TopicPartition) : Flight := ⟨target, 0, 0, .start cfg, .boarding⟩

/-- Takes off: the schedule begins. -/
def depart (f : Flight) (clock generation : Nat) : Flight :=
  { f with generation, deadline := clock + cfg.mandatoryStop, backoff := .start cfg }

/-- How long the next lookup may take. -/
def budget (f : Flight) (clock : Nat) : Nat := Nat.max (f.deadline - clock) cfg.initial

/-- What follows a lookup. -/
inductive Verdict where
  | settled (r : Resolution)
  /-- The next lookup begins after this delay. -/
  | retry (delay : Nat)
  /-- The resolution dies with its lookup. -/
  | died
  deriving DecidableEq, Repr

/-- Judges a lookup, `none` for one without an answer in time.  A failure is never taken for the
answer that there is no partition. -/
def judge (draw : Option Nat) (clock : Nat) (f : Flight) : Option Lookup → Verdict × Flight
  | some (.found h) => (.settled (.found h), f)
  | some .absent => (.settled .notFound, f)
  | some .died => (.died, f)
  | some (.failed _) | none =>
    match f.backoff.next cfg draw clock with
    | (some delay, backoff) => (.retry delay, { f with backoff })
    | (none, backoff) => (.settled (.exhausted backoff.attempts), { f with backoff })

end Flight

end GroupOffsets
