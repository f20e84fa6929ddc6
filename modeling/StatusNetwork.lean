import StatusNetwork.Bridging.Reservation
import StatusNetwork.Compressor.Encode
import StatusNetwork.Coordinator.Boundaries
import StatusNetwork.Coordinator.LockOrder
import StatusNetwork.Coordinator.ShnarfChain
import StatusNetwork.Coordinator.SubmissionOrder
import StatusNetwork.ForcedTransactions.InvalidityProofs
import StatusNetwork.ForcedTransactions.StatusUpdater
import StatusNetwork.Messaging.Anchoring
import StatusNetwork.Prover.Audits
import StatusNetwork.Prover.Contents
import StatusNetwork.Prover.TreeBuilder
import StatusNetwork.ProverController.Conservation
import StatusNetwork.Reputation.Redemption
import StatusNetwork.RlnProver.KarmaTiers
import StatusNetwork.RlnProver.QuotaBonus
import StatusNetwork.Rollup.CalldataEvaluation
import StatusNetwork.Rollup.Lineage
import StatusNetwork.Rollup.PublicInput
import StatusNetwork.Sequencer.ForcedTransactionOrder
import StatusNetwork.Sequencer.NullifierTracker
import StatusNetwork.Slashing.SlashQueue
import StatusNetwork.Staking.PointAccrual
import StatusNetwork.StateManager.Bytecode
import StatusNetwork.StateManager.StorageRoots
import StatusNetwork.StateRecovery.Lookback
import StatusNetwork.StateRecovery.Recovery
import StatusNetwork.Symbolic.DegreeCache
import StatusNetwork.Yield.Reserve
