import Mathlib.Algebra.Ring.Nat

/-!
# What conflation and aggregation have in common

Block intervals, the counters of a blob, the results of forced transactions, and the two objects
that the conflation calculators and the aggregation calculators share: the set of target end blocks
and the queue of processed forced transactions. An instant is a number of seconds.
-/

namespace StatusNetwork.Coordinator

/-- The blocks from the first number to the second, both included. -/
structure BlockInterval where
  startBlockNumber : Nat
  endBlockNumber : Nat
  deriving DecidableEq

abbrev BlobsToAggregate := BlockInterval

structure BlobCounters where
  numberOfBatches : Nat
  startBlockNumber : Nat
  endBlockNumber : Nat
  startBlockTimestamp : Nat
  endBlockTimestamp : Nat
  deriving DecidableEq

inductive ForcedTransactionInclusionResult
  | included
  | badNonce
  | badBalance
  | badPrecompile
  | tooManyLogs
  | filteredAddressFrom
  | filteredAddressTo
  | phylax
  deriving DecidableEq

structure ForcedTransactionInclusionStatus where
  ftxNumber : Nat
  blockNumber : Nat
  inclusionResult : ForcedTransactionInclusionResult
  deriving DecidableEq

/-- Sums of `UInt`s wrap around. -/
def uint (n : Nat) : Nat := n % 2 ^ 32

/-- `blockNumber - 1UL`, which wraps around at 0. -/
def blockBefore (blockNumber : Nat) : Nat := (blockNumber + (2 ^ 64 - 1)) % 2 ^ 64

/-- The blocks before those at which a forced transaction was not included. -/
def triggerBlocks (processedFtxs : List ForcedTransactionInclusionStatus) : List Nat :=
  (processedFtxs.filter (·.inclusionResult ≠ .included)).map fun ftx => blockBefore ftx.blockNumber

theorem uint_eq (h : n < 2 ^ 32) : uint n = n := Nat.mod_eq_of_lt h

theorem blockBefore_succ (h : n + 1 < 2 ^ 64) : blockBefore (n + 1) = n := by
  simp only [blockBefore]
  omega

end StatusNetwork.Coordinator
