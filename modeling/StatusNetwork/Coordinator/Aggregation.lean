import Mathlib.Data.List.Sort
import StatusNetwork.Base.Interleaving
import StatusNetwork.Base.Worklist
import StatusNetwork.Coordinator.Domain

/-!
# The aggregation calculator

Models `GlobalAggregationCalculator.kt` with the triggers that `ProofAggregationCoordinatorService`
creates: forced transactions, proof limit, target block numbers, blob limit and hard forks, each
checked for every blob, and the deadline, which is checked by a timer. Every trigger keeps an
aggregation in flight of its own.
-/

namespace StatusNetwork.Coordinator.Aggregation

inductive AggregationTriggerType
  | timeLimit
  | proofLimit
  | blobLimit
  | targetBlockNumber
  | hardFork
  | forcedTransaction
  deriving DecidableEq

structure AggregationTrigger where
  aggregationTriggerType : AggregationTriggerType
  aggregation : BlobsToAggregate
  deriving DecidableEq

inductive AggregationError
  | blobExceedsProofLimit
  | proofCountOverflowed
  | blobLimitOverflow
  | blobsNotSequential
  | noBlobsWithinAggregation
  | noSuchElement
  | divisionByZero
  | stackOverflow
  deriving DecidableEq

structure Config where
  maxProofsPerAggregation : Nat
  maxBlobsPerAggregation : Option Nat
  aggregationSizeMultipleOf : Nat
  hardForkTimestamps : List Nat
  initialTimestamp : Nat

def extend (inFlightAggregation : Option BlobsToAggregate) (blob : BlobCounters) :
    BlobsToAggregate :=
  ⟨(inFlightAggregation.map (·.startBlockNumber)).getD blob.startBlockNumber, blob.endBlockNumber⟩

-- The triggers

namespace ProofLimit

structure InFlightAggregation where
  proofsCount : Nat
  blobsToAggregate : BlobsToAggregate
  deriving DecidableEq

def countProofs (blob : BlobCounters) : Nat := uint (blob.numberOfBatches + 1)

/-- If the blob goes beyond the limit, the aggregation is triggered without it. -/
def checkAggregationTrigger (maxProofsPerAggregation : Nat)
    (inFlightAggregation : Option InFlightAggregation) (blob : BlobCounters) :
    Except AggregationError (Option AggregationTrigger) := do
  failIf (countProofs blob > maxProofsPerAggregation) .blobExceedsProofLimit
  match inFlightAggregation with
  | some inFlight =>
    let newProofsCount := uint (inFlight.proofsCount + countProofs blob)
    if newProofsCount > maxProofsPerAggregation then
      .ok (some ⟨.proofLimit, inFlight.blobsToAggregate⟩)
    else if newProofsCount = maxProofsPerAggregation then
      .ok (some ⟨.proofLimit, extend (some inFlight.blobsToAggregate) blob⟩)
    else .ok none
  | none =>
    if countProofs blob = maxProofsPerAggregation then
      .ok (some ⟨.proofLimit, extend none blob⟩)
    else .ok none

def newBlob (maxProofsPerAggregation : Nat) (inFlightAggregation : Option InFlightAggregation)
    (blob : BlobCounters) : Except AggregationError (Option InFlightAggregation) := do
  failIf (countProofs blob > maxProofsPerAggregation) .blobExceedsProofLimit
  let newProofsCount :=
    uint ((inFlightAggregation.map (·.proofsCount)).getD 0 + countProofs blob)
  failIf (newProofsCount > maxProofsPerAggregation) .proofCountOverflowed
  .ok (some ⟨newProofsCount, extend (inFlightAggregation.map (·.blobsToAggregate)) blob⟩)

end ProofLimit

namespace TargetBlockNumbers

/-- A blob that ends at a target triggers, unless it goes over another target. -/
def checkAggregationTrigger (triggerType : AggregationTriggerType)
    (targetEndBlockNumbers : List Nat) (inFlightAggregation : Option BlobsToAggregate)
    (blob : BlobCounters) : Option AggregationTrigger :=
  match targetEndBlockNumbers.max? with
  | none => none
  | some last =>
    if blob.endBlockNumber > last then none
    else if targetEndBlockNumbers.any
        (fun n => blob.startBlockNumber ≤ n ∧ n < blob.endBlockNumber) then none
    else if blob.endBlockNumber ∈ targetEndBlockNumbers then
      some ⟨triggerType, extend inFlightAggregation blob⟩
    else none

end TargetBlockNumbers

namespace BlobLimit

structure InFlightAggregation where
  blobsCount : Nat
  blobsToAggregate : BlobsToAggregate
  deriving DecidableEq

def blobCount (inFlightAggregation : Option InFlightAggregation) : Nat :=
  uint ((inFlightAggregation.map (·.blobsCount)).getD 0 + 1)

def willReachBlobLimitWithOneMoreBlob (maxBlobsPerAggregation : Nat)
    (inFlightAggregation : Option InFlightAggregation) : Prop :=
  blobCount inFlightAggregation ≥ maxBlobsPerAggregation

instance : Decidable (willReachBlobLimitWithOneMoreBlob n inFlight) :=
  inferInstanceAs (Decidable (_ ≥ _))

def checkAggregationTrigger (maxBlobsPerAggregation : Nat)
    (inFlightAggregation : Option InFlightAggregation) (blob : BlobCounters) :
    Option AggregationTrigger :=
  if willReachBlobLimitWithOneMoreBlob maxBlobsPerAggregation inFlightAggregation then
    some ⟨.blobLimit, extend (inFlightAggregation.map (·.blobsToAggregate)) blob⟩
  else none

def newBlob (maxBlobsPerAggregation : Nat) (inFlightAggregation : Option InFlightAggregation)
    (blob : BlobCounters) : Except AggregationError (Option InFlightAggregation) := do
  failIf (willReachBlobLimitWithOneMoreBlob maxBlobsPerAggregation inFlightAggregation)
    .blobLimitOverflow
  .ok (some ⟨blobCount inFlightAggregation,
    extend (inFlightAggregation.map (·.blobsToAggregate)) blob⟩)

end BlobLimit

namespace TimestampHardFork

structure State where
  lastProcessedTimestamp : Nat
  inFlightAggregation : Option BlobsToAggregate
  deriving DecidableEq

/-- The aggregation is triggered without the blob that crosses the fork. -/
def checkAggregationTrigger (hardForkTimestamps : List Nat) (s : State) (blob : BlobCounters) :
    Option AggregationTrigger :=
  let applicableTimestamp := hardForkTimestamps.find? fun timestamp =>
    s.lastProcessedTimestamp < timestamp ∧ blob.endBlockTimestamp ≥ timestamp
  match applicableTimestamp, s.inFlightAggregation with
  | some _, some inFlight => some ⟨.hardFork, inFlight⟩
  | _, _ => none

def State.newBlob (s : State) (blob : BlobCounters) : State :=
  { lastProcessedTimestamp := blob.endBlockTimestamp
    inFlightAggregation := some (extend s.inFlightAggregation blob) }

def State.reset (s : State) : State := { s with inFlightAggregation := none }

end TimestampHardFork

-- The state of the calculators

structure HandedOut where
  blobsToAggregate : BlobsToAggregate
  blobs : List BlobCounters
  deriving DecidableEq

/-- `pendingBlobs` is the priority queue, in order. -/
structure State where
  targetEndBlockNumbers : List Nat
  processedFtxQueue : List ForcedTransactionInclusionStatus
  arriving : List (List ForcedTransactionInclusionStatus)
  lastBlockNumber : Nat
  pendingBlobs : List BlobCounters
  pendingTriggerBlocks : List Nat
  /-- In flight for the triggers by forced transactions and by target block numbers. -/
  forcedTransaction : Option BlobsToAggregate
  targetBlockNumbers : Option BlobsToAggregate
  proofLimit : Option ProofLimit.InFlightAggregation
  blobLimit : Option BlobLimit.InFlightAggregation
  timestampHardFork : TimestampHardFork.State
  deadline : Option BlobsToAggregate
  deadlineTriggers : List AggregationTrigger
  accepted : List BlobCounters
  aggregations : List HandedOut

/-- Right after `create`; the first blob follows `lastBlockNumber`. -/
def initial (config : Config) (lastBlockNumber : Nat) (targetEndBlockNumbers : List Nat) :
    State where
  targetEndBlockNumbers
  processedFtxQueue := []
  arriving := []
  lastBlockNumber
  pendingBlobs := []
  pendingTriggerBlocks := []
  forcedTransaction := none
  targetBlockNumbers := none
  proofLimit := none
  blobLimit := none
  timestampHardFork := ⟨config.initialTimestamp, none⟩
  deadline := none
  deadlineTriggers := []
  accepted := []
  aggregations := []

/-- Takes all forced transactions off the queue, those included that arrive meanwhile. -/
def consumeProcessedFtxs (s : State) : State :=
  { s with
    processedFtxQueue := []
    arriving := s.arriving.tail
    pendingTriggerBlocks :=
      s.pendingTriggerBlocks ++ triggerBlocks (s.processedFtxQueue ++ s.arriving.headD []) }

def checkForcedTransaction (s : State) (blob : BlobCounters) :
    State × Option AggregationTrigger :=
  let s := consumeProcessedFtxs s
  match TargetBlockNumbers.checkAggregationTrigger .forcedTransaction s.pendingTriggerBlocks
    s.forcedTransaction blob with
  | some trigger =>
    ({ s with pendingTriggerBlocks := s.pendingTriggerBlocks.filter (· ≠ blob.endBlockNumber) },
      some trigger)
  | none => (s, none)

variable (config : Config)

/-- The triggers that the calculators answer with, in their order. Without hard fork timestamps
there is no such calculator; it would never trigger. -/
def checkAggregationTriggers (s : State) (blob : BlobCounters) :
    Except AggregationError (State × List AggregationTrigger) := do
  let (s, forcedTransaction) := checkForcedTransaction s blob
  let proofLimit ←
    ProofLimit.checkAggregationTrigger config.maxProofsPerAggregation s.proofLimit blob
  let targetBlockNumbers := TargetBlockNumbers.checkAggregationTrigger .targetBlockNumber
    s.targetEndBlockNumbers s.targetBlockNumbers blob
  let blobLimit := config.maxBlobsPerAggregation.bind fun maxBlobsPerAggregation =>
    BlobLimit.checkAggregationTrigger maxBlobsPerAggregation s.blobLimit blob
  let timestampHardFork := TimestampHardFork.checkAggregationTrigger config.hardForkTimestamps
    s.timestampHardFork blob
  .ok (s, [forcedTransaction, proofLimit, targetBlockNumbers, blobLimit,
    timestampHardFork].reduceOption)

def addToCalculators (s : State) (blob : BlobCounters) : Except AggregationError State := do
  let proofLimit ← ProofLimit.newBlob config.maxProofsPerAggregation s.proofLimit blob
  let blobLimit ← match config.maxBlobsPerAggregation with
    | some maxBlobsPerAggregation => BlobLimit.newBlob maxBlobsPerAggregation s.blobLimit blob
    | none => .ok s.blobLimit
  .ok { s with
    forcedTransaction := some (extend s.forcedTransaction blob)
    proofLimit
    targetBlockNumbers := some (extend s.targetBlockNumbers blob)
    blobLimit
    timestampHardFork := s.timestampHardFork.newBlob blob
    deadline := some (extend s.deadline blob) }

def resetTriggerCalculators (s : State) : State :=
  { consumeProcessedFtxs s with
    forcedTransaction := none
    proofLimit := none
    targetBlockNumbers := none
    blobLimit := none
    timestampHardFork := s.timestampHardFork.reset
    deadline := none }

-- Processing blobs

def getUpdatedAggregationSize (aggregationSize aggregationSizeMultipleOf : Nat) :
    Except AggregationError Nat :=
  if aggregationSize > aggregationSizeMultipleOf then
    if aggregationSizeMultipleOf = 0 then .error .divisionByZero
    else .ok (aggregationSize - aggregationSize % aggregationSizeMultipleOf)
  else .ok aggregationSize

/-- All pending blobs have been polled; the calculators are reset and the handler is called. -/
def onAggregation (s : State) (aggregation : HandedOut) : State :=
  { resetTriggerCalculators s with
    pendingBlobs := []
    aggregations := s.aggregations ++ [aggregation] }

def handOut (s : State) (trigger : AggregationTrigger) :
    Except AggregationError (State × List BlobCounters) := do
  let aggregation := trigger.aggregation
  failIf (s.pendingBlobs = [] ∨
    (∀ blob ∈ s.pendingBlobs, blob.startBlockNumber ≠ aggregation.startBlockNumber) ∨
    (∀ blob ∈ s.pendingBlobs, blob.endBlockNumber ≠ aggregation.endBlockNumber))
    .noBlobsWithinAggregation
  let blobsInAggregation := s.pendingBlobs.takeWhile fun blob =>
    aggregation.startBlockNumber ≤ blob.startBlockNumber ∧
      blob.endBlockNumber ≤ aggregation.endBlockNumber
  let blobsNotInAggregation := s.pendingBlobs.dropWhile fun blob =>
    aggregation.startBlockNumber ≤ blob.startBlockNumber ∧
      blob.endBlockNumber ≤ aggregation.endBlockNumber
  let updatedAggregationSize ←
    getUpdatedAggregationSize blobsInAggregation.length config.aggregationSizeMultipleOf
  let blobsInUpdatedAggregation := blobsInAggregation.take updatedAggregationSize
  let blobsNotInUpdatedAggregation := blobsInAggregation.drop updatedAggregationSize
  match blobsInUpdatedAggregation.head?, blobsInUpdatedAggregation.getLast? with
  | some first, some last =>
    let updatedAggregation := ⟨first.startBlockNumber, last.endBlockNumber⟩
    let blobsToReprocess := (blobsNotInUpdatedAggregation ++ blobsNotInAggregation).insertionSort
      (fun b₁ b₂ => b₁.startBlockNumber ≤ b₂.startBlockNumber)
    .ok (onAggregation s ⟨updatedAggregation, blobsInUpdatedAggregation⟩, blobsToReprocess)
  | _, _ => .error .noSuchElement

/-- What `processBlob` does with a blob before others are reprocessed; these are returned. -/
def checkBlob (s : State) (blob : BlobCounters) :
    Except AggregationError (State × List BlobCounters) := do
  let pendingBlobs := s.pendingBlobs.orderedInsert
    (fun b₁ b₂ => b₁.startBlockNumber ≤ b₂.startBlockNumber) blob
  let (s, aggregationTriggers) ← checkAggregationTriggers config { s with pendingBlobs } blob
  match aggregationTriggers with
  | aggregationTrigger :: _ => handOut config s aggregationTrigger
  | [] => do
    let s ← addToCalculators config s blob
    .ok (s, [])

/-- With `fuel` as the number of stack frames that are left. -/
def processBlob (fuel : Nat) : State → BlobCounters → Except AggregationError State :=
  Worklist.process (checkBlob config) .stackOverflow fuel

def newBlob (s : State) (blob : BlobCounters) : Except AggregationError State := do
  failIf (blob.startBlockNumber ≠ s.lastBlockNumber + 1) .blobsNotSequential
  processBlob config (s.pendingBlobs.length + 1)
    { s with lastBlockNumber := blob.endBlockNumber, accepted := s.accepted ++ [blob] } blob

def handleAggregationTrigger (s : State) (trigger : AggregationTrigger) :
    Except AggregationError State := do
  let (s', blobsToReprocess) ← handOut config s trigger
  blobsToReprocess.foldlM (processBlob config s.pendingBlobs.length) s'

-- Runs

inductive Action
  | newBlob (blob : BlobCounters) (arriving : List (List ForcedTransactionInclusionStatus))
  | addProcessedFtx (ftx : ForcedTransactionInclusionStatus)
  | addTargetBlockNumber (blockNumber : Nat)
  | checkAggregation
  | handleDeadlineTrigger (i : Nat) (arriving : List (List ForcedTransactionInclusionStatus))

/-- A deadline trigger that does not fit the pending blobs throws and changes nothing. -/
def step (s : State) : Action → Option State
  | .newBlob blob arriving => (newBlob config { s with arriving } blob).toOption
  | .addProcessedFtx ftx => some { s with processedFtxQueue := s.processedFtxQueue ++ [ftx] }
  | .addTargetBlockNumber blockNumber =>
    some { s with targetEndBlockNumbers := blockNumber :: s.targetEndBlockNumbers }
  | .checkAggregation => s.deadline.map fun inFlight =>
    { s with deadlineTriggers := s.deadlineTriggers ++ [⟨.timeLimit, inFlight⟩] }
  | .handleDeadlineTrigger i arriving => do
    let trigger ← s.deadlineTriggers[i]?
    let s := { s with deadlineTriggers := s.deadlineTriggers.eraseIdx i }
    match handleAggregationTrigger config { s with arriving } trigger with
    | .ok s' => some s'
    | .error .noBlobsWithinAggregation => some s
    | .error _ => none

/-- The blobs come in order, each with at most the proofs of an aggregation. -/
def Valid (s : State) : Action → Prop
  | .newBlob blob _ => blob.startBlockNumber = s.lastBlockNumber + 1 ∧
    blob.startBlockNumber ≤ blob.endBlockNumber ∧
    blob.numberOfBatches + 1 ≤ config.maxProofsPerAggregation
  | _ => True

instance : Decidable (Valid config s a) := by
  unfold Valid
  split <;> infer_instance

abbrev Reaches (lastBlockNumber : Nat) (targetEndBlockNumbers : List Nat) : State → Prop :=
  Interleaving.Reaches (step config) (Valid config)
    (initial config lastBlockNumber targetEndBlockNumbers)

end StatusNetwork.Coordinator.Aggregation
