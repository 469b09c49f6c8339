import GroupOffsets.OffsetTable

/-!
# Metrics

Counters of what happened, as they are shown to the operators of a bridge.  Each is raised at the
moment of the event that it counts.
-/

namespace GroupOffsets

structure Metrics where
  /-- Commits below the stored offset. -/
  offsetRegressions : Nat
  /-- Entries removed by the sweeper. -/
  sweepRemovals : Nat
  /-- Offsets that a persist pass could not write. -/
  persistFailures : Nat
  /-- Calls that got no partition in time. -/
  resolutionTimeouts : Nat
  /-- Partitions found in the store; each also gives a sample of the time it took. -/
  resolutionLatencies : Nat
  deriving DecidableEq, Repr

namespace Metrics

instance : EmptyCollection Metrics := ⟨⟨0, 0, 0, 0, 0⟩⟩

variable (m : Metrics)

def noteRegression : Metrics := { m with offsetRegressions := m.offsetRegressions + 1 }

def noteSweepRemoval : Metrics := { m with sweepRemovals := m.sweepRemovals + 1 }

def notePersistFailures (n : Nat) : Metrics := { m with persistFailures := m.persistFailures + n }

def noteResolutionTimeout : Metrics := { m with resolutionTimeouts := m.resolutionTimeouts + 1 }

def noteResolutionLatency : Metrics := { m with resolutionLatencies := m.resolutionLatencies + 1 }

/-- Commits an offset and counts it if it rewinds. -/
def commit (t : OffsetTable) (k : GroupTopic) (p : Int32) (o : Offset) : OffsetTable × Metrics :=
  (t.commit k p o, if t.regresses k p o then m.noteRegression else m)

/-- The counters of two bridges together. -/
def add (m m' : Metrics) : Metrics where
  offsetRegressions := m.offsetRegressions + m'.offsetRegressions
  sweepRemovals := m.sweepRemovals + m'.sweepRemovals
  persistFailures := m.persistFailures + m'.persistFailures
  resolutionTimeouts := m.resolutionTimeouts + m'.resolutionTimeouts
  resolutionLatencies := m.resolutionLatencies + m'.resolutionLatencies

/-- The counters that are above zero, by name. -/
def report : List (String × Nat) :=
  [("offset_regressions", m.offsetRegressions), ("sweep_removals", m.sweepRemovals),
    ("persist_failures", m.persistFailures), ("resolution_timeouts", m.resolutionTimeouts),
    ("resolution_latency_ms.count", m.resolutionLatencies)].filter (·.2 != 0)

end Metrics

end GroupOffsets
