import Mathlib.Data.List.Sort

/-!
# Recovering the state from L1

Models the tasks of the state recovery plugin: the search for submission events
(`SubmissionEventsFetchingTask.kt`), the download of blobs (`BlobsFetchingTask.kt`), their
decompression (`BlobDecompressionTask.kt`) and the import of the blocks
(`StateSynchronizerService.kt`, `BlockImporter.kt`). A task runs one action at a time, and polls
again some time after the action has returned or failed. The tasks share the queues between
them, so that each access to a queue is a step of its own.
-/

namespace StatusNetwork.StateRecovery

-- Data

structure EthLogEvent (E : Type) where
  blockNumber : Nat
  event : E
  deriving DecidableEq

/-- `R` are state root hashes. -/
structure DataFinalizedV3 (R : Type) where
  startBlockNumber : Nat
  endBlockNumber : Nat
  finalStateRootHash : R
  deriving DecidableEq

/-- A finalization, and the transactions `T` that submitted its data. -/
structure FinalizationAndDataEventsV3 (R T : Type) where
  dataSubmittedEvents : List T
  dataFinalizedEvent : EthLogEvent (DataFinalizedV3 R)
  deriving DecidableEq

namespace FinalizationAndDataEventsV3

variable (f : FinalizationAndDataEventsV3 R T)

abbrev startBlockNumber : Nat := f.dataFinalizedEvent.event.startBlockNumber
abbrev endBlockNumber : Nat := f.dataFinalizedEvent.event.endBlockNumber

end FinalizationAndDataEventsV3

structure SubmissionEventsAndData (R T D : Type) where
  submissionEvents : FinalizationAndDataEventsV3 R T
  data : List D
  deriving DecidableEq

/-- A block, with the decoded content `B`. -/
structure BlockFromL1RecoveredData (B : Type) where
  blockNumber : Nat
  content : B
  deriving DecidableEq

structure Config where
  l1EarliestBlockWithFinalizationThatSupportRecovery : Nat
  l2StartBlockNumber : Nat
  submissionEventsQueueLimit : Nat
  compressedBlobsQueueLimit : Nat
  targetDecompressedBlobsQueueLimit : Nat
  debugForceSyncStopBlockNumber : Option Nat
  deriving DecidableEq

/-- What is on L1: the finalizations, the versioned hashes `V` of the blobs of a transaction, the
blobs `W`, and the blocks that a blob decodes to. -/
structure Chain (R T V W B : Type) where
  finalizations : List (FinalizationAndDataEventsV3 R T)
  getBlobVersionedHashesByTransactionHash : T → List V
  blobByHash : V → W
  decodeBlocks : W → List B

-- Calls

namespace Chain

variable {R T V W B : Type} (chain : Chain R T V W B)

def fetchBlobsOfSubmissionEvents (f : FinalizationAndDataEventsV3 R T) : List W :=
  (f.dataSubmittedEvents.flatMap chain.getBlobVersionedHashesByTransactionHash).map
    chain.blobByHash

def number (blockNumber : Nat) : List B → List (BlockFromL1RecoveredData B)
  | [] => []
  | block :: blocks => ⟨blockNumber, block⟩ :: number (blockNumber + 1) blocks

def decompress (startBlockNumber : Nat) (blobs : List W) : List (BlockFromL1RecoveredData B) :=
  number startBlockNumber (blobs.flatMap chain.decodeBlocks)

/-- More than one DataFinalizedV3 event found -/
inductive SearchFailure
  | moreThanOne
  deriving DecidableEq

/-- The search among the first `visible` finalizations. -/
def findDataFinalizedEventContainingBlock (visible fromL1BlockNumber l2BlockNumber : Nat) :
    Option (FinalizationAndDataEventsV3 R T) :=
  (chain.finalizations.take visible).find? fun f =>
    fromL1BlockNumber ≤ f.dataFinalizedEvent.blockNumber ∧
      f.startBlockNumber ≤ l2BlockNumber ∧ l2BlockNumber ≤ f.endBlockNumber

def findDataFinalizedV3Event (visible fromL1BlockNumber startBlockNumber : Nat) :
    Except SearchFailure (Option (FinalizationAndDataEventsV3 R T)) :=
  let finalizedEvents := (chain.finalizations.take visible).filter fun f =>
    fromL1BlockNumber ≤ f.dataFinalizedEvent.blockNumber ∧ f.startBlockNumber = startBlockNumber
  if 1 < finalizedEvents.length then .error .moreThanOne else .ok finalizedEvents.head?

def findNextFinalizationSubmissionEvents (config : Config) (visible : Nat)
    (latestFetchedFinalization : Option (FinalizationAndDataEventsV3 R T)) :
    Except SearchFailure (Option (FinalizationAndDataEventsV3 R T)) :=
  match latestFetchedFinalization with
  | some latest => chain.findDataFinalizedV3Event visible latest.dataFinalizedEvent.blockNumber
      (latest.endBlockNumber + 1)
  | none => .ok (chain.findDataFinalizedEventContainingBlock visible
      config.l1EarliestBlockWithFinalizationThatSupportRecovery config.l2StartBlockNumber)

end Chain

def filterOutBlocksAlreadyImportedAndBeyondStopSync (debugForceSyncStopBlockNumber : Option Nat)
    (headBlock : Nat) (blocks : List (BlockFromL1RecoveredData B)) :
    List (BlockFromL1RecoveredData B) :=
  let filteredBlocks := blocks.dropWhile (·.blockNumber ≤ headBlock)
  match debugForceSyncStopBlockNumber with
  | none => filteredBlocks
  | some stop => filteredBlocks.takeWhile (·.blockNumber ≤ stop)

def sortedBlocks (blocks : List (BlockFromL1RecoveredData B)) : List (BlockFromL1RecoveredData B) :=
  blocks.insertionSort fun a b => a.blockNumber ≤ b.blockNumber

-- State

inductive EventsTask (R T : Type)
  | idle
  | sizing
  | searching
  /-- The finalization is in the queue, and not yet the latest one. -/
  | added (f : FinalizationAndDataEventsV3 R T)
  deriving DecidableEq

inductive BlobsTask (R T W : Type)
  | idle
  | sizing
  | peeking
  | fetching (f : FinalizationAndDataEventsV3 R T)
  | added
  deriving DecidableEq

inductive DecompressionTask (R T W : Type)
  | idle
  | sizing
  | polling
  | decompressing (x : SubmissionEventsAndData R T W)
  deriving DecidableEq

inductive ImportTask (R T B : Type)
  | idle
  | peeking
  | filtering (x : SubmissionEventsAndData R T (BlockFromL1RecoveredData B))
  | importing (x : SubmissionEventsAndData R T (BlockFromL1RecoveredData B))
    (blocks : List (BlockFromL1RecoveredData B))
  /-- The blocks are imported, and the state root of the last one is awaited. -/
  | verifying (x : SubmissionEventsAndData R T (BlockFromL1RecoveredData B))
    (lastBlockNumber : Nat)
  | pruning (x : SubmissionEventsAndData R T (BlockFromL1RecoveredData B))
  deriving DecidableEq

/-- What is handed to the importer, and the head of the execution client at that time. -/
structure Handed (B : Type) where
  head : Nat
  blocks : List (BlockFromL1RecoveredData B)
  deriving DecidableEq

structure State (R T W B : Type) where
  visible : Nat
  events : EventsTask R T
  eventsRunning : Bool
  latestFetchedFinalization : Option (FinalizationAndDataEventsV3 R T)
  submissionEventsQueue : List (FinalizationAndDataEventsV3 R T)
  blobs : BlobsTask R T W
  compressedBlobsQueue : List (SubmissionEventsAndData R T W)
  decompression : DecompressionTask R T W
  decompressedBlobsQueueLimit : Nat
  decompressedBlocksQueue : List (SubmissionEventsAndData R T (BlockFromL1RecoveredData B))
  importer : ImportTask R T B
  importerRunning : Bool
  stateRootMismatchFound : Bool
  head : Nat
  imported : List (BlockFromL1RecoveredData B)
  handed : List (Handed B)
  pruned : List (FinalizationAndDataEventsV3 R T)
  deriving DecidableEq

variable {R T V W B : Type}

def State.init (config : Config) (head : Nat) : State R T W B where
  visible := 0
  events := .idle
  eventsRunning := true
  latestFetchedFinalization := none
  submissionEventsQueue := []
  blobs := .idle
  compressedBlobsQueue := []
  decompression := .idle
  decompressedBlobsQueueLimit := config.targetDecompressedBlobsQueueLimit
  decompressedBlocksQueue := []
  importer := .idle
  importerRunning := true
  stateRootMismatchFound := false
  head := head
  imported := []
  handed := []
  pruned := []

-- Steps

/-- A step of a task, or what its environment does. -/
inductive Action (R : Type)
  | finalization
  /-- The look-back hashes need more room in the last queue, or are there. -/
  | incrementDecompressedBlobsQueueLimit (incrementFactor : Nat)
  | resetDecompressedBlobsQueueLimitToOriginalSize
  | events
  | eventsFail
  | blobs
  | blobsFail
  | decompression
  | decompressionFails
  | importer
  /-- The execution client imports some of the blocks, and the import fails. -/
  | importerFails (blocks : Nat)
  | stateRoot (zkStateRootHash : R)
  deriving DecidableEq

section
variable (chain : Chain R T V W B) (config : Config)

def fetchSubmissionEvents (s : State R T W B) : Option (State R T W B) :=
  match s.events with
  | .idle =>
    if ¬ s.eventsRunning then none
    else if config.debugForceSyncStopBlockNumber.any
        ((s.latestFetchedFinalization.map (·.endBlockNumber)).getD 0 ≥ ·) then
      some { s with eventsRunning := false }
    else some { s with events := .sizing }
  | .sizing =>
    if s.submissionEventsQueue.length ≥ config.submissionEventsQueueLimit then
      some { s with events := .idle }
    else some { s with events := .searching }
  | .searching =>
    match chain.findNextFinalizationSubmissionEvents config s.visible
      s.latestFetchedFinalization with
    | .ok (some f) =>
      some { s with submissionEventsQueue := s.submissionEventsQueue ++ [f], events := .added f }
    | _ => some { s with events := .idle }
  | .added f => some { s with latestFetchedFinalization := some f, events := .sizing }

def fetchBlobs (s : State R T W B) : Option (State R T W B) :=
  match s.blobs with
  | .idle => some { s with blobs := .sizing }
  | .sizing =>
    if s.compressedBlobsQueue.length ≥ config.compressedBlobsQueueLimit then
      some { s with blobs := .idle }
    else some { s with blobs := .peeking }
  | .peeking =>
    match s.submissionEventsQueue.head? with
    | none => some { s with blobs := .idle }
    | some nextSubmission => some { s with blobs := .fetching nextSubmission }
  | .fetching nextSubmission =>
    some { s with
      compressedBlobsQueue :=
        s.compressedBlobsQueue ++
          [⟨nextSubmission, chain.fetchBlobsOfSubmissionEvents nextSubmission⟩]
      blobs := .added }
  | .added =>
    some { s with submissionEventsQueue := s.submissionEventsQueue.tail, blobs := .sizing }

def decompressAndDeserializeBlobs (s : State R T W B) : Option (State R T W B) :=
  match s.decompression with
  | .idle => some { s with decompression := .sizing }
  | .sizing =>
    if s.decompressedBlocksQueue.length ≥ s.decompressedBlobsQueueLimit then
      some { s with decompression := .idle }
    else some { s with decompression := .polling }
  | .polling =>
    match s.compressedBlobsQueue with
    | [] => some { s with decompression := .idle }
    | x :: rest => some { s with compressedBlobsQueue := rest, decompression := .decompressing x }
  | .decompressing x =>
    some { s with
      decompressedBlocksQueue :=
        s.decompressedBlocksQueue ++
          [⟨x.submissionEvents, chain.decompress x.submissionEvents.startBlockNumber x.data⟩]
      decompression := .sizing }

/-- The execution client imports the first blocks of a list. -/
def importBlocks (s : State R T W B) (blocks : List (BlockFromL1RecoveredData B)) :
    State R T W B :=
  { s with
    imported := s.imported ++ blocks
    head := (blocks.getLast?.map (·.blockNumber)).getD s.head }

def importNextFinalizationAvailable (s : State R T W B) : Option (State R T W B) :=
  match s.importer with
  | .idle =>
    if ¬ s.importerRunning then none
    else if s.stateRootMismatchFound then some s
    else some { s with importer := .peeking }
  | .peeking =>
    match s.decompressedBlocksQueue.head? with
    | none => some { s with importer := .idle }
    | some x => some { s with importer := .filtering x }
  | .filtering x =>
    let blocks := filterOutBlocksAlreadyImportedAndBeyondStopSync
      config.debugForceSyncStopBlockNumber s.head x.data
    if blocks.isEmpty then some { s with importer := .pruning x }
    else some { s with importer := .importing x blocks, handed := s.handed ++ [⟨s.head, blocks⟩] }
  | .importing x blocks =>
    match (sortedBlocks blocks).getLast? with
    | none => some { s with importer := .idle }
    | some last =>
      some { importBlocks s (sortedBlocks blocks) with importer := .verifying x last.blockNumber }
  | .verifying _ _ => none
  | .pruning x =>
    some { s with
      decompressedBlocksQueue := s.decompressedBlocksQueue.filter
        (¬ ·.submissionEvents.endBlockNumber ≤ x.submissionEvents.endBlockNumber)
      pruned := s.pruned ++ (s.decompressedBlocksQueue.filter
        (·.submissionEvents.endBlockNumber ≤ x.submissionEvents.endBlockNumber)).map
          (·.submissionEvents)
      importer := .idle }

def importFails (blocks : Nat) (s : State R T W B) : Option (State R T W B) :=
  match s.importer with
  | .filtering _ => some { s with importer := .idle }
  | .importing _ toImport =>
    some { importBlocks s ((sortedBlocks toImport).take blocks) with importer := .idle }
  | .verifying _ _ => some { s with importer := .idle }
  | _ => none

def assertStateMatches [DecidableEq R] (zkStateRootHash : R) (s : State R T W B) :
    Option (State R T W B) :=
  match s.importer with
  | .verifying x lastBlockNumber =>
    let finalizedV3 := x.submissionEvents.dataFinalizedEvent.event
    if lastBlockNumber ≠ finalizedV3.endBlockNumber then
      some { s with
        importer := .pruning x
        importerRunning :=
          s.importerRunning && config.debugForceSyncStopBlockNumber ≠ some lastBlockNumber }
    else if zkStateRootHash = finalizedV3.finalStateRootHash then
      some { s with importer := .pruning x }
    else
      some { s with
        importer := .pruning x, stateRootMismatchFound := true, importerRunning := false }
  | _ => none

def step [DecidableEq R] (s : State R T W B) : Action R → Option (State R T W B)
  | .finalization => some { s with visible := s.visible + 1 }
  | .incrementDecompressedBlobsQueueLimit incrementFactor =>
    some { s with
      decompressedBlobsQueueLimit := s.decompressedBlobsQueueLimit + incrementFactor }
  | .resetDecompressedBlobsQueueLimitToOriginalSize =>
    some { s with decompressedBlobsQueueLimit := config.targetDecompressedBlobsQueueLimit }
  | .events => fetchSubmissionEvents chain config s
  | .eventsFail =>
    match s.events with
    | .searching => some { s with events := .idle }
    | _ => none
  | .blobs => fetchBlobs chain config s
  | .blobsFail =>
    match s.blobs with
    | .fetching _ => some { s with blobs := .idle }
    | _ => none
  | .decompression => decompressAndDeserializeBlobs chain s
  | .decompressionFails =>
    match s.decompression with
    | .decompressing _ => some { s with decompression := .idle }
    | _ => none
  | .importer => importNextFinalizationAvailable config s
  | .importerFails blocks => importFails blocks s
  | .stateRoot zkStateRootHash => assertStateMatches config zkStateRootHash s

end

end StatusNetwork.StateRecovery
