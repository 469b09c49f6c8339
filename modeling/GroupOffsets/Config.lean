import GroupOffsets.Backoff
import GroupOffsets.Bridge
import GroupOffsets.Failure

/-!
# Configuration

What an operator can set, with the defaults, and what a valid configuration has to satisfy.
-/

namespace GroupOffsets

namespace Config

structure General where
  /-- The number of this bridge. -/
  id : Int32 := 0
  /-- How the names of system groups begin. -/
  systemGroups : List String := ["rocketmq/__rocketmq", "public/default"]
  /-- Where the store keeps its cursors. -/
  checkpointPath : String := "cursor-checkpoint"
  deriving DecidableEq, Repr

/-- The retry schedule of lookups and how long a caller waits for one, all in milliseconds. -/
structure Resolution where
  initialBackoff : UInt64 := 100
  maxBackoff : UInt64 := 10000
  mandatoryStop : UInt64 := 10000
  maxAttempts : UInt32 := 10
  callerWait : UInt64 := 3000
  deriving DecidableEq, Repr

structure Sweeper where
  /-- The seconds between two sweep passes. -/
  interval : UInt64 := 300
  deriving DecidableEq, Repr

structure Persister where
  /-- The seconds between two persist passes; with none there is only the one at shutdown. -/
  interval : UInt64 := 0
  deriving DecidableEq, Repr

/-- A topic that the store serves. -/
structure Topic where
  name : String
  partitions : Int32
  deriving DecidableEq, Repr

end Config

structure Config where
  general : Config.General := {}
  resolution : Config.Resolution := {}
  sweeper : Config.Sweeper := {}
  persister : Config.Persister := {}
  topics : List Config.Topic := []
  deriving DecidableEq, Repr

namespace Config

instance : Inhabited Config := ⟨{}⟩

variable (c : Config)

/-- Why a configuration cannot be used, if so; the first fault counts. -/
def fault? : Option String :=
  let r := c.resolution
  if r.initialBackoff = 0 then some "resolution.initial_backoff_ms must be positive"
  else if r.maxBackoff < r.initialBackoff then
    some ("resolution.max_backoff_ms " ++ Numeral.text r.maxBackoff.toNat
      ++ " is below initial_backoff_ms " ++ Numeral.text r.initialBackoff.toNat)
  else if r.maxAttempts = 0 then some "resolution.max_attempts must be positive"
  else if c.sweeper.interval = 0 then some "sweeper.interval_secs must be positive"
  else (c.topics.find? (·.partitions ≤ 0)).map fun t =>
    "topic " ++ t.name ++ " has " ++ Numeral.text t.partitions.toInt ++ " partitions"

def validate : Attempt Unit :=
  match c.fault? with
  | some fault => .error (.invalidValue fault)
  | none => .ok ()

/-- The retry schedule of lookups. -/
def retry : Backoff.Config where
  initial := c.resolution.initialBackoff.toNat
  max := c.resolution.maxBackoff.toNat
  mandatoryStop := c.resolution.mandatoryStop.toNat
  maxAttempts := c.resolution.maxAttempts.toNat

/-- What the bridge is set up with. -/
def settings : Bridge.Settings where
  systemGroups := c.general.systemGroups
  retry := c.retry
  callerWait := c.resolution.callerWait.toNat

/-- The interval of the sweep loop, in milliseconds. -/
def sweepEvery : Nat := c.sweeper.interval.toNat * 1000

/-- The interval of the persist loop, in milliseconds; zero for none. -/
def persistEvery : Nat := c.persister.interval.toNat * 1000

/-- The partitions that the store serves, topic by topic. -/
def partitions : List TopicPartition :=
  c.topics.flatMap fun t =>
    (List.range t.partitions.toNatClampNeg).map fun p => ⟨t.name, Int32.ofNat p⟩

end Config

end GroupOffsets
