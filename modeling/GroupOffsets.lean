import GroupOffsets.Main
import GroupOffsets.Proofs.Standalone
import GroupOffsets.Proofs.Sweep.Evidence
import GroupOffsets.Proofs.Sweep.Races
import GroupOffsets.Simulation
import GroupOffsets.Proofs.Lounge
import GroupOffsets.Proofs.Aloft
import GroupOffsets.Proofs.Convergence
import GroupOffsets.Proofs.Cursors
import GroupOffsets.Proofs.Persist.Exact
import GroupOffsets.Proofs.Shutdown.Durable
import GroupOffsets.Proofs.Checkpoint.Grammar
import GroupOffsets.Proofs.Ledger
import GroupOffsets.Proofs.Checkpoint.File
import GroupOffsets.Proofs.Resolution.Callers
import GroupOffsets.Proofs.Persist.Order
import GroupOffsets.Proofs.Teardown
import GroupOffsets.Proofs.Standalone.Run
import GroupOffsets.Proofs.Deletion
import GroupOffsets.Proofs.Isolation.Run
import GroupOffsets.Proofs.Retention
import GroupOffsets.Proofs.Accounting.Run
import GroupOffsets.Proofs.Backoff.Schedule
import GroupOffsets.Proofs.Backoff.Budget
import GroupOffsets.Proofs.Resolution.Deadline
import GroupOffsets.Proofs.Registration
import GroupOffsets.Proofs.Trimming
import GroupOffsets.Proofs.Conservation
import GroupOffsets.Proofs.Listing
import GroupOffsets.Proofs.Handles
import GroupOffsets.Proofs.Key
