import GroupOffsets.Config

/-!
# Settings

Values as they stand in a file, before it is known what they are for, and how they are read as a
configuration.  A missing section or field takes its default, and what is not known is ignored.

Settings can be read strictly, each field in its own form only, or leniently, where numbers, truth
values and texts stand for one another.
-/

namespace GroupOffsets

inductive Setting where
  | absent
  | flag (b : Bool)
  | whole (n : Int)
  | real (x : Float)
  | text (s : String)
  | list (xs : List Setting)
  | table (entries : List (String × Setting))

namespace Setting

instance : Inhabited Setting := ⟨absent⟩

/-- Why a file gives no settings. -/
inductive Fault where
  /-- It is not written as it has to be. -/
  | malformed
  /-- It makes the program break down. -/
  | breakdown
  deriving DecidableEq, Repr

/-- Adds an entry, in the place of one with the same name. -/
def put (name : String) (s : Setting) : List (String × Setting) → List (String × Setting)
  | [] => [(name, s)]
  | e :: es => if e.1 = name then (name, s) :: es else e :: put name s es

end Setting

/-- A way to read settings as the values of fields. -/
structure Reading where
  /-- A whole number, for a field that may or may not be negative. -/
  whole : (signed : Bool) → Setting → Option Int
  text : Setting → Option String
  /-- Whether a section written as a list may have more items than fields. -/
  takesSurplus : Bool

namespace Reading

/-- Each field in its own form. -/
def strict : Reading where
  whole
    | _, .whole n => some n
    | _, _ => none
  text
    | .text s => some s
    | _ => none
  takesSurplus := false

variable (r : Reading)

def inRange (low high n : Int) : Option Int := if low ≤ n ∧ n ≤ high then some n else none

def int32 (s : Setting) : Option Int32 :=
  ((r.whole true s).bind (inRange (-0x80000000) 0x7FFFFFFF)).map Int32.ofInt

def uint32 (s : Setting) : Option UInt32 :=
  ((r.whole false s).bind (inRange 0 0xFFFFFFFF)).map fun n => UInt32.ofNat n.toNat

def uint64 (s : Setting) : Option UInt64 :=
  ((r.whole false s).bind (inRange 0 0xFFFFFFFFFFFFFFFF)).map fun n => UInt64.ofNat n.toNat

def list {α : Type} (item : Setting → Option α) : Setting → Option (List α)
  | .list xs => xs.mapM item
  | _ => none

/-- The values of a section's fields: under their names, or listed in their order. -/
def values (names : List String) : Setting → Option (List (String × Setting))
  | .table entries => some entries
  | .list xs => if r.takesSurplus || xs.length ≤ names.length then some (names.zip xs) else none
  | _ => none

/-- A field that may be missing. -/
def field {α : Type} (values : List (String × Setting)) (name : String) (standard : α)
    (read : Setting → Option α) : Option α :=
  match values.lookup name with
  | some s => read s
  | none => some standard

def general (s : Setting) : Option Config.General := do
  let standard : Config.General := {}
  let values ← r.values ["id", "system_group_prefixes", "cursor_checkpoint_path"] s
  return {
    id := ← field values "id" standard.id r.int32
    systemGroups := ← field values "system_group_prefixes" standard.systemGroups (list r.text)
    checkpointPath := ← field values "cursor_checkpoint_path" standard.checkpointPath r.text }

def resolution (s : Setting) : Option Config.Resolution := do
  let standard : Config.Resolution := {}
  let values ← r.values
    ["initial_backoff_ms", "max_backoff_ms", "mandatory_stop_ms", "max_attempts",
      "caller_wait_ms"] s
  return {
    initialBackoff := ← field values "initial_backoff_ms" standard.initialBackoff r.uint64
    maxBackoff := ← field values "max_backoff_ms" standard.maxBackoff r.uint64
    mandatoryStop := ← field values "mandatory_stop_ms" standard.mandatoryStop r.uint64
    maxAttempts := ← field values "max_attempts" standard.maxAttempts r.uint32
    callerWait := ← field values "caller_wait_ms" standard.callerWait r.uint64 }

def sweeper (s : Setting) : Option Config.Sweeper := do
  let standard : Config.Sweeper := {}
  let values ← r.values ["interval_secs"] s
  return { interval := ← field values "interval_secs" standard.interval r.uint64 }

def persister (s : Setting) : Option Config.Persister := do
  let standard : Config.Persister := {}
  let values ← r.values ["interval_secs"] s
  return { interval := ← field values "interval_secs" standard.interval r.uint64 }

def topic (s : Setting) : Option Config.Topic := do
  let values ← r.values ["name", "partitions"] s
  return {
    name := ← (values.lookup "name").bind r.text
    partitions := ← (values.lookup "partitions").bind r.int32 }

def topics (s : Setting) : Option (List Config.Topic) := do
  let values ← r.values ["topics"] s
  field values "topics" [] (list r.topic)

/-- Reads settings as a configuration, which may not be valid. -/
def config (s : Setting) : Option Config := do
  let values ← r.values ["general", "resolution", "sweeper", "persist", "storage"] s
  return {
    general := ← field values "general" {} r.general
    resolution := ← field values "resolution" {} r.resolution
    sweeper := ← field values "sweeper" {} r.sweeper
    persister := ← field values "persist" {} r.persister
    topics := ← field values "storage" [] r.topics }

end Reading

end GroupOffsets
