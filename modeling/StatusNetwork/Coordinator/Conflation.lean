import Mathlib.Data.Fintype.Basic
import Mathlib.Data.List.Sort
import StatusNetwork.Base.Control
import StatusNetwork.Base.Interleaving
import StatusNetwork.Coordinator.Domain

/-!
# Conflation

Models `ConflationServiceImpl.kt`, which brings blocks into order;
`GlobalBlockConflationCalculator.kt` with the calculators that `ConflationApp` gives it, which cuts
them into conflations; and `GlobalBlobAwareConflationCalculator.kt`, which puts the conflations
(batches) into blobs. `M` are the tracing modules, `σ` the states of the blob compressor.
-/

namespace StatusNetwork.Coordinator.Conflation

abbrev Bytes := List UInt8

structure Block where
  number : Nat
  content : Bytes
  deriving DecidableEq

structure BlockCounters (M : Type) where
  blockNumber : Nat
  blockTimestamp : Nat
  tracesCounters : M → Nat
  blockRLPEncoded : Bytes

inductive ConflationTrigger
  | targetBlockNumber
  | forcedTransaction
  | hardFork
  | dataLimit
  | tracesLimit
  | timeLimit
  | blocksLimit
  deriving DecidableEq

/-- The lower the number, the higher the priority. -/
def ConflationTrigger.triggerPriority : ConflationTrigger → Nat
  | .targetBlockNumber => 1
  | .forcedTransaction => 2
  | .hardFork => 3
  | .dataLimit => 4
  | .tracesLimit => 5
  | .timeLimit => 6
  | .blocksLimit => 7

structure ConflationCalculationResult (M : Type) where
  startBlockNumber : Nat
  endBlockNumber : Nat
  conflationTrigger : ConflationTrigger
  tracesCounters : M → Nat

def ConflationCalculationResult.contains (c : ConflationCalculationResult M) (blockNumber : Nat) :
    Bool := c.startBlockNumber ≤ blockNumber ∧ blockNumber ≤ c.endBlockNumber

structure BlocksConflation (M : Type) where
  blocks : List Block
  conflationResult : ConflationCalculationResult M

structure Blob (M : Type) where
  conflations : List (ConflationCalculationResult M)
  compressedData : Bytes
  startBlockTime : Nat
  endBlockTime : Nat

/-- The compressor library. `appendBlock` also says whether it appended the block. -/
structure BlobCompressor (σ : Type) where
  initial : σ
  canAppendBlock : σ → Bytes → Bool
  appendBlock : σ → Bytes → Bool × σ
  startNewBatch : σ → σ
  getCompressedData : σ → Bytes

inductive ConflationError
  /-- A sum of traces counters does not fit a `UInt`. -/
  | tracesCountersOverflow
  | blockOverflowsTracesLimits
  | appendingUnvalidatedBlock
  | blockDoesNotFitInBlob
  | blockLimitReached
  | blocksNotSequential
  | blockDoesNotMatchCounters
  | nullPointer
  | noSuchElement
  | startAfterEnd
  | conflationsNotConsecutive
  | endBlockTimePredatesStart
  deriving DecidableEq

/-- Without block limit, or without hard fork timestamps, there is no such calculator. -/
structure Config (M σ : Type) where
  tracesCountersLimit : M → Nat
  blocksLimit : Option Nat
  batchesLimit : Nat
  hardForkTimestamps : List Nat
  blobCompressor : BlobCompressor σ

structure State (M σ : Type) where
  targetEndBlockNumbers : List Nat
  processedFtxQueue : List ForcedTransactionInclusionStatus
  -- ConflationServiceImpl; the priority queue is in order
  blocksToConflate : List (BlockCounters M)
  blocksInProgress : List Block
  -- GlobalBlockConflationCalculator; there is no start block number if the conflation is empty
  lastBlockNumber : Nat
  startBlockNumber : Option Nat
  -- the calculators
  inprogressTracesCounters : M → Nat
  compressorState : σ
  dataDrained : Bool
  lastValidatedBlock : Option Bytes
  blockCount : Nat
  lastProcessedTimestamp : Nat
  pendingTriggerBlocks : List Nat
  -- GlobalBlobAwareConflationCalculator
  blobBatches : List (ConflationCalculationResult M)
  blobBlockCounters : List (BlockCounters M)
  numberOfBatches : Nat
  -- what came in and what was handed to the listener and to the blob handler
  received : List (Block × BlockCounters M)
  conflations : List (BlocksConflation M)
  blobs : List (Blob M)

def initial (config : Config M σ) (lastBlockNumber initialTimestamp : Nat)
    (targetEndBlockNumbers : List Nat) : State M σ where
  targetEndBlockNumbers
  processedFtxQueue := []
  blocksToConflate := []
  blocksInProgress := []
  lastBlockNumber
  startBlockNumber := none
  inprogressTracesCounters := fun _ => 0
  compressorState := config.blobCompressor.initial
  dataDrained := false
  lastValidatedBlock := none
  blockCount := 0
  lastProcessedTimestamp := initialTimestamp
  pendingTriggerBlocks := []
  blobBatches := []
  blobBlockCounters := []
  numberOfBatches := 0
  received := []
  conflations := []
  blobs := []

-- The calculators

section
variable [Fintype M] (config : Config M σ)

def addTraces (a b : M → Nat) : Except ConflationError (M → Nat) :=
  if ∀ m, a m + b m < 2 ^ 32 then .ok fun m => a m + b m else .error .tracesCountersOverflow

def AllTracesWithinLimits (counters limits : M → Nat) : Prop := ∀ m, counters m ≤ limits m

instance {counters limits : M → Nat} : Decidable (AllTracesWithinLimits counters limits) :=
  inferInstanceAs (Decidable (∀ m, counters m ≤ limits m))

def checkTraces (s : State M σ) (block : BlockCounters M) :
    Except ConflationError (Option ConflationTrigger) := do
  let counters ← addTraces s.inprogressTracesCounters block.tracesCounters
  if AllTracesWithinLimits counters config.tracesCountersLimit then .ok none
  else .ok (some .tracesLimit)

/-- A block that overflows the limits alone is allowed in. -/
def appendTraces (s : State M σ) (block : BlockCounters M) :
    Except ConflationError (State M σ) := do
  let counters ← addTraces s.inprogressTracesCounters block.tracesCounters
  failIf (¬ AllTracesWithinLimits counters config.tracesCountersLimit ∧
    ∃ m, s.inprogressTracesCounters m ≠ 0) .blockOverflowsTracesLimits
  .ok { s with inprogressTracesCounters := counters }

end

section
variable (config : Config M σ)

def checkTargetBlockNumbers (s : State M σ) (block : BlockCounters M) : Option ConflationTrigger :=
  if blockBefore block.blockNumber ∈ s.targetEndBlockNumbers then some .targetBlockNumber else none

def checkData (s : State M σ) (block : BlockCounters M) : State M σ × Option ConflationTrigger :=
  ({ s with lastValidatedBlock := some block.blockRLPEncoded },
    if config.blobCompressor.canAppendBlock s.compressorState block.blockRLPEncoded then none
    else some .dataLimit)

def appendData (s : State M σ) (block : BlockCounters M) :
    Except ConflationError (State M σ) := do
  failIf (s.lastValidatedBlock ≠ some block.blockRLPEncoded) .appendingUnvalidatedBlock
  let (blockAppended, compressorState) :=
    config.blobCompressor.appendBlock s.compressorState block.blockRLPEncoded
  failIf (blockAppended = false) .blockDoesNotFitInBlob
  .ok { s with compressorState, dataDrained := false }

/-- Only data that has been drained is given up. -/
def resetData (s : State M σ) : State M σ :=
  if s.dataDrained then { s with compressorState := config.blobCompressor.initial } else s

def checkBlockLimit (s : State M σ) : Option ConflationTrigger :=
  config.blocksLimit.bind fun blockLimit =>
    if s.blockCount < blockLimit then none else some .blocksLimit

def appendBlockLimit (s : State M σ) : Except ConflationError (State M σ) := do
  failIf (∃ blockLimit ∈ config.blocksLimit, s.blockCount + 1 > blockLimit)
    .blockLimitReached
  .ok { s with blockCount := s.blockCount + 1 }

def checkHardFork (s : State M σ) (block : BlockCounters M) : Option ConflationTrigger :=
  let applicableTimestamp := config.hardForkTimestamps.find? fun timestamp =>
    s.lastProcessedTimestamp < timestamp ∧ block.blockTimestamp ≥ timestamp
  applicableTimestamp.map fun _ => .hardFork

/-- The queue is read and not consumed. -/
def checkForcedTransaction (s : State M σ) (block : BlockCounters M) :
    State M σ × Option ConflationTrigger :=
  let pendingTriggerBlocks := s.pendingTriggerBlocks ++ triggerBlocks s.processedFtxQueue
  ({ s with pendingTriggerBlocks },
    if block.blockNumber ∈ pendingTriggerBlocks then some .forcedTransaction else none)

end

section
variable [Fintype M] (config : Config M σ)

def checkOverflow (s : State M σ) (block : BlockCounters M) :
    Except ConflationError (State M σ × List ConflationTrigger) := do
  let traces ← checkTraces config s block
  let target := checkTargetBlockNumbers s block
  let (s, data) := checkData config s block
  let blocks := checkBlockLimit config s
  let fork := checkHardFork config s block
  let (s, forced) := checkForcedTransaction s block
  .ok (s, [traces, target, data, blocks, fork, forced].reduceOption)

def appendBlock (s : State M σ) (block : BlockCounters M) :
    Except ConflationError (State M σ) := do
  let s ← appendTraces config s block
  let s ← appendData config s block
  let s ← appendBlockLimit config s
  .ok { s with
    lastProcessedTimestamp := block.blockTimestamp
    pendingTriggerBlocks := s.pendingTriggerBlocks.filter (· > block.blockNumber) }

end

-- Conflations and blobs

section
variable (config : Config M σ)

/-- `ConflationServiceImpl.handleConflation`. -/
def handleConflation (s : State M σ) (conflation : ConflationCalculationResult M) : State M σ :=
  let blocks := (s.blocksInProgress.filter (conflation.contains ·.number)).insertionSort
    fun b₁ b₂ => b₁.number ≤ b₂.number
  { s with
    blocksInProgress := s.blocksInProgress.filter (· ∉ blocks)
    conflations := s.conflations ++ [⟨blocks, conflation⟩] }

def AllConsecutive : List (ConflationCalculationResult M) → Prop
  | c₁ :: c₂ :: rest => c₂.startBlockNumber = c₁.endBlockNumber + 1 ∧ AllConsecutive (c₂ :: rest)
  | _ => True

instance : (l : List (ConflationCalculationResult M)) → Decidable (AllConsecutive l)
  | [] | [_] => isTrue trivial
  | c₁ :: c₂ :: rest =>
    haveI : Decidable (AllConsecutive (c₂ :: rest)) := instDecidableAllConsecutive (c₂ :: rest)
    inferInstanceAs (Decidable (c₂.startBlockNumber = c₁.endBlockNumber + 1 ∧ _))

def blockTimestamp (s : State M σ) (blockNumber : Nat) : Except ConflationError Nat :=
  match s.blobBlockCounters.find? (·.blockNumber = blockNumber) with
  | some block => .ok block.blockTimestamp
  | none => .error .nullPointer

def fireBlobTriggerAndResetState (s : State M σ) : Except ConflationError (State M σ) :=
  match s.blobBatches.head?, s.blobBatches.getLast? with
  | some first, some last => do
    let compressedData := config.blobCompressor.getCompressedData s.compressorState
    let startBlockTime ← blockTimestamp s first.startBlockNumber
    let endBlockTime ← blockTimestamp s last.endBlockNumber
    failIf (¬ AllConsecutive s.blobBatches) .conflationsNotConsecutive
    failIf (endBlockTime < startBlockTime) .endBlockTimePredatesStart
    .ok (resetData config { s with
      dataDrained := true
      blobs := s.blobs ++ [⟨s.blobBatches, compressedData, startBlockTime, endBlockTime⟩]
      blobBlockCounters := s.blobBlockCounters.filter fun block =>
        s.blobBatches.all fun conflation => !conflation.contains block.blockNumber
      blobBatches := []
      numberOfBatches := 0 })
  | _, _ => .error .noSuchElement

def handleBatchTrigger (s : State M σ) (conflation : ConflationCalculationResult M) :
    Except ConflationError (State M σ) := do
  let s := handleConflation { s with
    blobBatches := s.blobBatches ++ [conflation]
    numberOfBatches := s.numberOfBatches + 1 } conflation
  if conflation.conflationTrigger = .dataLimit ∨ conflation.conflationTrigger = .timeLimit ∨
      conflation.conflationTrigger = .targetBlockNumber ∨
      conflation.conflationTrigger = .hardFork ∨ s.numberOfBatches ≥ config.batchesLimit then
    fireBlobTriggerAndResetState config
      (if conflation.conflationTrigger = .hardFork then
        { s with targetEndBlockNumbers := conflation.endBlockNumber :: s.targetEndBlockNumbers }
      else s)
  else
    let s := { s with
      compressorState := config.blobCompressor.startNewBatch s.compressorState }
    match s.blobBlockCounters.getLast? with
    | none => .error .noSuchElement
    | some block =>
      let (s, overflow) := checkData config s block
      if overflow.isSome then fireBlobTriggerAndResetState config s else .ok s

def reset (s : State M σ) : State M σ :=
  resetData config { s with
    inprogressTracesCounters := fun _ => 0
    blockCount := 0
    startBlockNumber := none }

def fireConflationAndResetState (s : State M σ) (endBlockNumber : Nat)
    (conflationTrigger : ConflationTrigger) : Except ConflationError (State M σ) :=
  match s.startBlockNumber with
  | none => .error .nullPointer
  | some startBlockNumber => do
    failIf (endBlockNumber < startBlockNumber) .startAfterEnd
    let s ← handleBatchTrigger config s
      ⟨startBlockNumber, endBlockNumber, conflationTrigger, s.inprogressTracesCounters⟩
    .ok (reset config s)

/-- On an empty conflation it throws. -/
def handleConflationTrigger (s : State M σ) (trigger : ConflationTrigger) :
    Except ConflationError (State M σ) :=
  fireConflationAndResetState config s s.lastBlockNumber trigger

end

-- Blocks

section
variable [Fintype M] (config : Config M σ)

def firstTrigger (triggers : List ConflationTrigger) : Option ConflationTrigger :=
  (triggers.insertionSort fun t₁ t₂ => t₁.triggerPriority ≤ t₂.triggerPriority).head?

def conflateBlock (s : State M σ) (block : BlockCounters M) :
    Except ConflationError (State M σ) := do
  let (s, triggers) ← checkOverflow config s block
  let s ← match firstTrigger triggers with
    | some conflationTrigger =>
      if s.startBlockNumber.isSome then
        fireConflationAndResetState config s s.lastBlockNumber conflationTrigger
      else .ok s
    | none => .ok s
  let s ← appendBlock config
    { s with startBlockNumber := some (s.startBlockNumber.getD block.blockNumber) } block
  .ok { s with lastBlockNumber := block.blockNumber }

def calculatorNewBlock (s : State M σ) (block : BlockCounters M) :
    Except ConflationError (State M σ) := do
  failIf (block.blockNumber ≠ s.lastBlockNumber + 1) .blocksNotSequential
  conflateBlock config { s with blobBlockCounters := s.blobBlockCounters ++ [block] } block

/-- Sends the blocks that are next, as long as they are safe to conflate, `n` at most. -/
def sendBlocksInOrderToTracesCounter (isBlockSafeToConflate : Nat → Bool) :
    Nat → State M σ → Except ConflationError (State M σ)
  | 0, s => .ok s
  | n + 1, s =>
    match s.blocksToConflate with
    | [] => .ok s
    | block :: blocksToConflate =>
      if block.blockNumber = s.lastBlockNumber + 1 ∧ isBlockSafeToConflate block.blockNumber then do
        let s ← calculatorNewBlock config { s with blocksToConflate } block
        sendBlocksInOrderToTracesCounter isBlockSafeToConflate n s
      else .ok s

def newBlock (s : State M σ) (isBlockSafeToConflate : Nat → Bool) (block : Block)
    (blockCounters : BlockCounters M) : Except ConflationError (State M σ) := do
  failIf (block.number ≠ blockCounters.blockNumber) .blockDoesNotMatchCounters
  let s := { s with
    received := s.received ++ [(block, blockCounters)]
    blocksToConflate := s.blocksToConflate.orderedInsert
      (fun b₁ b₂ => b₁.blockNumber ≤ b₂.blockNumber) blockCounters
    blocksInProgress := s.blocksInProgress ++ [block] }
  sendBlocksInOrderToTracesCounter config isBlockSafeToConflate s.blocksToConflate.length s

-- Runs

inductive Action (M : Type)
  | newBlock (isBlockSafeToConflate : Nat → Bool) (block : Block) (blockCounters : BlockCounters M)
  | timeLimit
  | addProcessedFtx (ftx : ForcedTransactionInclusionStatus)
  | consumeProcessedFtxs

def step (s : State M σ) : Action M → Except ConflationError (State M σ)
  | .newBlock isBlockSafeToConflate block blockCounters =>
    newBlock config s isBlockSafeToConflate block blockCounters
  | .timeLimit => handleConflationTrigger config s .timeLimit
  | .addProcessedFtx ftx => .ok { s with processedFtxQueue := s.processedFtxQueue ++ [ftx] }
  | .consumeProcessedFtxs => .ok { s with processedFtxQueue := [] }

end

end StatusNetwork.Coordinator.Conflation
