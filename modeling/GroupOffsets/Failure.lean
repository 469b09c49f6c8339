import GroupOffsets.Text.Numeral

/-!
# Failures

What can go wrong in the bridge, with the wording shown to its users.  Two failures are transient:
the same operation may succeed when it is tried again.
-/

namespace GroupOffsets

inductive Failure where
  /-- The partition was not resolved within the caller's wait. -/
  | resolutionTimeout (topic : String) (partition : Int32)
  /-- The store says that there is no such partition. -/
  | unknownPartition (name : String)
  /-- A position lies outside the range of offsets. -/
  | encodingOverflow (detail : String)
  /-- A persist pass left some offsets behind. -/
  | persistPartial (failed total : Nat)
  /-- The store could not answer for now. -/
  | storageUnavailable (detail : String)
  | illegalState (detail : String)
  | invalidValue (detail : String)
  | io (detail : String)
  | numeral (fault : Numeral.Fault)
  | configFile (detail : String)
  deriving DecidableEq, Repr

/-- The outcome of an operation that may fail. -/
abbrev Attempt (α : Type) : Type := Except Failure α

namespace Failure

def message : Failure → String
  | resolutionTimeout topic partition =>
    "resolution of partition " ++ topic ++ "-" ++ Numeral.text partition.toInt ++ " timed out"
  | unknownPartition name => "unknown partition: " ++ name
  | encodingOverflow detail => "position encoding overflow: " ++ detail
  | persistPartial failed total =>
    "persist failed for " ++ Numeral.text failed ++ " of " ++ Numeral.text total ++ " partitions"
  | storageUnavailable detail => "storage unavailable: " ++ detail
  | illegalState detail => "illegal state: " ++ detail
  | invalidValue detail => "invalid value: " ++ detail
  | io detail => "io error: " ++ detail
  | numeral fault => "parse int error: " ++ fault.message
  | configFile detail => "config file error: " ++ detail

/-- Whether a later attempt of the same operation may succeed. -/
def isRetryable : Failure → Bool
  | resolutionTimeout .. | storageUnavailable _ => true
  | _ => false

end Failure

end GroupOffsets
