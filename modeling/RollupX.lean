import RollupX.Library.Run
import RollupX.Model.Executor.TxEngine
import RollupX.Library.Ledger
import RollupX.Verification.Executor.State
import RollupX.Verification.Executor.Engine
import RollupX.Verification.Executor.Conservation
import RollupX.Verification.Executor.Replay
import RollupX.Verification.Executor.Roots
import RollupX.Library.KeyedHistory
import RollupX.Model.Prover.RollupCore
import RollupX.Verification.Prover.Guest
import RollupX.Library.TaskPool
import RollupX.Model.Sequencer.Admission
import RollupX.Verification.Sequencer.Admission
import RollupX.Model.Sequencer.Orchestrator
import RollupX.Verification.Sequencer.ForcedQueue
import RollupX.Model.Executor.Genesis
import RollupX.Model.Executor.Service
import RollupX.Verification.Executor.Service
import RollupX.Verification.Executor.Restart
import RollupX.Library.CallFrames
import RollupX.Model.Contracts.Bridge
import RollupX.Verification.Contracts.RootLinkage
import RollupX.Library.Keccak
import RollupX.Library.Sha256
import RollupX.Verification.Contracts.Calls
import RollupX.Verification.Contracts.Finality
import RollupX.Verification.Contracts.Freezing
import RollupX.Verification.Contracts.Withdrawals
import RollupX.Library.KeyedTable
import RollupX.Model.Submitter.Compression
import RollupX.Model.Submitter.Outbox
import RollupX.Model.Submitter.Daemon
import RollupX.Verification.Submitter.Resubmission
import RollupX.Verification.Submitter.Confirmation
import RollupX.Verification.Submitter.Recovery
import RollupX.Library.JobBoard
import RollupX.Verification.Executor.Jobs
import RollupX.Verification.Executor.Reset
import RollupX.Library.Broadcast
import RollupX.Library.Json
import RollupX.Model.Executor.Payload
import RollupX.Model.Sequencer.Payload
import RollupX.Model.Submitter.BatchSource
import RollupX.Verification.Sequencer.ForcedOrder
import RollupX.Verification.Sequencer.Payload
import RollupX.Verification.Submitter.BatchStream
import RollupX.Library.Merge
import RollupX.Model.Sequencer.Node
import RollupX.Model.Sequencer.Policies
import RollupX.Verification.Sequencer.BatchIds
import RollupX.Library.Pipeline
import RollupX.Verification.Submitter.CommitOrder
import RollupX.Library.Packing
import RollupX.Library.Reservation
import RollupX.Library.Resumption
import RollupX.Model.Contracts.DA
import RollupX.Model.Contracts.Verifier
import RollupX.Model.Sequencer.L1Listener
import RollupX.Verification.Sequencer.L1Listener
import RollupX.Verification.Sequencer.Signing
import RollupX.Verification.Submitter.Compression
import RollupX.Verification.Submitter.Provenance
import RollupX.Verification.System.DataAvailability
import RollupX.Verification.System.Deposits
import RollupX.Verification.System.FieldCheck
import RollupX.Verification.System.Tracking
import RollupX.Library.Commitment
import RollupX.Model.Executor.Faults
import RollupX.Verification.Executor.Backends
import RollupX.Verification.Executor.Commutation
import RollupX.Verification.Executor.Credits
import RollupX.Verification.Executor.FailedCalls
import RollupX.Verification.Executor.FaultyBatches
import RollupX.Verification.Executor.RootBinding
import RollupX.Verification.Prover.TraceBinding
import RollupX.Model.Prover.Artifacts
import RollupX.Verification.Prover.Journal
import RollupX.Verification.Sequencer.GreedyOrder
import RollupX.Verification.Sequencer.FeeMetrics
import RollupX.Verification.Sequencer.Panics
import RollupX.Model.Submitter.CostBreakdown
import RollupX.Verification.Contracts.BatchLedger
import RollupX.Verification.Sequencer.Progress
import RollupX.Verification.Submitter.Broadcasts
import RollupX.Verification.Submitter.CostBreakdown
import RollupX.Verification.Submitter.Decompression
import RollupX.Verification.Submitter.GasBumps
import RollupX.Verification.System.RootField
import RollupX.Model.Executor.Metrics
import RollupX.Verification.Executor.Metrics
import RollupX.Library.Dominance
import RollupX.Library.Locks
import RollupX.Model.DataTools.Pareto
import RollupX.Model.Submitter.ProverHttp
import RollupX.Verification.DataTools.Pareto
import RollupX.Verification.Submitter.BreakerLocks
import RollupX.Library.SparseMerkle
import RollupX.Model.Executor.Rocks
import RollupX.Verification.Executor.AccountTree
import RollupX.Verification.System.ProvedAccounts
