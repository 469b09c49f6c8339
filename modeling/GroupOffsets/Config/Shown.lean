import GroupOffsets.Config
import GroupOffsets.Text.Outline
import GroupOffsets.Text.Quoted

/-!
# A configuration on display

How an operator is shown the configuration in force: every section with every field.
-/

namespace GroupOffsets

namespace Config

open Outline

/-- A number on display. -/
def shownNumber (n : Int) : Outline := leaf (Numeral.text n)

/-- A text on display. -/
def shownText (s : String) : Outline := leaf (String.ofList (Text.quoted s.toList))

variable (c : Config)

def outline : Outline :=
  record "BridgeConfig" [
    ("general", record "GeneralConfig" [
      ("id", shownNumber c.general.id.toInt),
      ("system_group_prefixes", list (c.general.systemGroups.map shownText)),
      ("cursor_checkpoint_path", shownText c.general.checkpointPath)]),
    ("resolution", record "ResolutionConfig" [
      ("initial_backoff_ms", shownNumber c.resolution.initialBackoff.toNat),
      ("max_backoff_ms", shownNumber c.resolution.maxBackoff.toNat),
      ("mandatory_stop_ms", shownNumber c.resolution.mandatoryStop.toNat),
      ("max_attempts", shownNumber c.resolution.maxAttempts.toNat),
      ("caller_wait_ms", shownNumber c.resolution.callerWait.toNat)]),
    ("sweeper", record "SweeperConfig" [
      ("interval_secs", shownNumber c.sweeper.interval.toNat)]),
    ("persist", record "PersistConfig" [
      ("interval_secs", shownNumber c.persister.interval.toNat)]),
    ("storage", record "StorageConfig" [
      ("topics", list (c.topics.map fun t => record "TopicConfig" [
        ("name", shownText t.name),
        ("partitions", shownNumber t.partitions.toInt)]))])]

/-- The configuration as it is shown. -/
def shown : String := c.outline.render 0 ++ "\n"

end Config

end GroupOffsets
