import Mathlib.Data.List.MinMax
import Mathlib.Data.List.Sort
import StatusNetwork.Coordinator.Domain

/-!
# Forced transactions on their way through the coordinator

Models `linea.ftx`: the fetcher of the L1 events, the status updater and the sender, which share
the queue of forced transactions, the manager of the safe block number, and what a start of the
application does. They run beside L1, the sequencer and the database, which outlive the
coordinator. A step is one access to what they share.

The provider that conflation asks has the number of the manager, which hands it every update while
it holds its own lock.
-/

namespace StatusNetwork.ForcedTransactions

open Coordinator (ForcedTransactionInclusionResult ForcedTransactionInclusionStatus)

-- The safe block number

inductive IllegalState
  | lockNotAcquired
  | belowSafeBlockNumber
  deriving DecidableEq

/-- Without a safe block number conflation is not restricted. -/
structure SafeBlockNumberManager where
  safeBlockNumber : Option Nat
  startUpScanFinished : Bool
  ftxInSequencerForProcessing : List Nat
  deriving DecidableEq

namespace SafeBlockNumberManager

def fresh : SafeBlockNumberManager where
  safeBlockNumber := some 0
  startUpScanFinished := false
  ftxInSequencerForProcessing := []

variable (m : SafeBlockNumberManager)

def isBlockSafeToConflate (blockNumber : Nat) : Bool := m.safeBlockNumber.all (blockNumber ≤ ·)

def locked : Bool := m.safeBlockNumber.any (0 < ·)

def lockSafeBlockNumberBeforeSendingToSequencer (headBlockNumber : Nat) : SafeBlockNumberManager :=
  if m.locked then m else { m with safeBlockNumber := some headBlockNumber }

def ftxSentToSequencer (ftx : List Nat) : Except IllegalState SafeBlockNumberManager :=
  if m.locked then
    .ok { m with ftxInSequencerForProcessing := m.ftxInSequencerForProcessing ++ ftx }
  else .error .lockNotAcquired

def ftxProcessedBySequencer (ftxNumber simulatedExecutionBlockNumber : Nat) :
    Except IllegalState SafeBlockNumberManager :=
  if m.safeBlockNumber.any (simulatedExecutionBlockNumber < ·) then .error .belowSafeBlockNumber
  else
    let inSequencer := m.ftxInSequencerForProcessing.filter (ftxNumber < ·)
    .ok { m with
      safeBlockNumber :=
        if inSequencer.isEmpty && m.startUpScanFinished then none
        else some simulatedExecutionBlockNumber
      ftxInSequencerForProcessing := inSequencer }

def unprocessedFtxQueueIsEmpty : SafeBlockNumberManager :=
  if m.startUpScanFinished then { m with safeBlockNumber := none } else m

def caughtUpWithChainHeadAfterStartUp : SafeBlockNumberManager :=
  if m.startUpScanFinished then m
  else if m.ftxInSequencerForProcessing.isEmpty && m.safeBlockNumber == some 0 then
    { m with startUpScanFinished := true, safeBlockNumber := none }
  else { m with startUpScanFinished := true }

def forcedTransactionsUnsupportedYetByL1Contract : SafeBlockNumberManager :=
  { m with safeBlockNumber := none }

end SafeBlockNumberManager

-- The status updater

structure ForcedTransactionWithTimestamp where
  forcedTransactionNumber : Nat
  l1BlockTimestamp : Int
  deriving DecidableEq

structure ForcedTransactionRecord where
  ftxNumber : Nat
  inclusionResult : ForcedTransactionInclusionResult
  simulatedExecutionBlockNumber : Nat
  deriving DecidableEq

/-- The loop of `filterOutAlreadyProcessed`, which stops at the first gap. -/
def consecutiveFrom :
    (currentExpected : Nat) → (sortedFtxs : List ForcedTransactionWithTimestamp) →
      List ForcedTransactionWithTimestamp
  | _, [] => []
  | currentExpected, ftx :: rest =>
    if ftx.forcedTransactionNumber = currentExpected then
      ftx :: consecutiveFrom (currentExpected + 1) rest
    else []

def consecutiveFtxs (nextExpectedFtxNumber : Nat) (ftxs : List ForcedTransactionWithTimestamp) :
    List ForcedTransactionWithTimestamp :=
  consecutiveFrom nextExpectedFtxNumber
    ((ftxs.filter (nextExpectedFtxNumber ≤ ·.forcedTransactionNumber)).insertionSort
      fun a b => a.forcedTransactionNumber ≤ b.forcedTransactionNumber)

structure Config where
  maxFtxToSendToSequencer : Nat
  ftxProcessingDelay : Int
  deriving DecidableEq

def Config.isReady (config : Config) (now : Int) (ftx : ForcedTransactionWithTimestamp) : Bool :=
  config.ftxProcessingDelay ≤ now - ftx.l1BlockTimestamp

/-- Where a tick of the sender stands. Up to `filtering` it is in `getUnprocessedForcedTransactions`
with the forced transactions that remain to be processed, of which `ftx` is the first one. -/
inductive Tick
  | idle
  | processing (remaining : List ForcedTransactionWithTimestamp)
  | checking (ftx : ForcedTransactionWithTimestamp)
      (remaining : List ForcedTransactionWithTimestamp)
  | saving (ftx : ForcedTransactionWithTimestamp) (ftxStatus : ForcedTransactionInclusionStatus)
      (remaining : List ForcedTransactionWithTimestamp)
  | saved (ftx : ForcedTransactionWithTimestamp) (ftxStatus : ForcedTransactionInclusionStatus)
      (remaining : List ForcedTransactionWithTimestamp)
  | adding (ftx : ForcedTransactionWithTimestamp) (ftxStatus : ForcedTransactionInclusionStatus)
      (remaining : List ForcedTransactionWithTimestamp)
  | removing (ftx : ForcedTransactionWithTimestamp)
      (remaining : List ForcedTransactionWithTimestamp)
  | filtering (ftxs : List ForcedTransactionWithTimestamp)
  | releasing
  | readingHead (unprocessedFtx : List ForcedTransactionWithTimestamp)
  | locking (latestBlockNumber : Nat) (unprocessedFtx : List ForcedTransactionWithTimestamp)
  | flagging (unprocessedFtxToSend : List ForcedTransactionWithTimestamp)
  | sending (unprocessedFtxToSend : List ForcedTransactionWithTimestamp)
  deriving DecidableEq

-- The state

/-- How far the start is: it asks for the version of the contract and then for the resume point. -/
inductive Phase
  | starting
  | resuming
  | running
  deriving DecidableEq

/-- The coordinator. `nextExpectedFtxNumber` is the one of the status updater and `nextExpectedFtx`
the one of the fetcher, who has searched L1 up to the first `l1End` forced transactions. -/
structure App where
  phase : Phase
  manager : SafeBlockNumberManager
  ftxQueue : List ForcedTransactionWithTimestamp
  ftxProcessedQueue : List ForcedTransactionInclusionStatus
  nextExpectedFtxNumber : Nat
  nextExpectedFtx : Nat
  l1End : Option Nat
  tick : Tick
  /-- What was put into the processed queue so far. -/
  processed : List Nat
  /-- What the database had before this coordinator was started. -/
  recordedBefore : List Nat
  deriving DecidableEq

def App.fresh (recordedBefore : List Nat) : App where
  phase := .starting
  manager := .fresh
  ftxQueue := []
  ftxProcessedQueue := []
  nextExpectedFtxNumber := 0
  nextExpectedFtx := 0
  l1End := none
  tick := .idle
  processed := []
  recordedBefore

/-- The `n`-th forced transaction of L1 has the number `n` and the timestamp of its block. What is
sent to the sequencer may be received at any time, or never. -/
structure State where
  l1 : List Int
  now : Int
  head : Nat
  sent : List Nat
  received : List Nat
  /-- What the sequencer has processed, in a block up to the one after its head. -/
  statuses : List ForcedTransactionInclusionStatus
  ftxDao : List ForcedTransactionRecord
  app : App
  deriving DecidableEq

inductive Action
  | addForcedTransaction (l1BlockTimestamp : Int)
  | passTime (d : Nat)
  | produceBlock
  | receive (ftxNumber : Nat)
  | process (ftxNumber : Nat) (inclusionResult : ForcedTransactionInclusionResult)
  | restart
  | checkVersion (supported : Bool)
  /-- The number of the last forced transaction that L1 has finalized, if the contract has one. -/
  | resume (forcedTransactionNumber : Option Nat)
  | searchL1
  | onNewForcedTransaction
  | caughtUp
  | tick
  | fail
  | consume
  deriving DecidableEq

namespace State

def init (l1 : List Int) (now : Int) (head : Nat) : State where
  l1
  now
  head
  sent := []
  received := []
  statuses := []
  ftxDao := []
  app := .fresh []

variable (config : Config) (s : State)

def recorded : List Nat := s.ftxDao.map (·.ftxNumber)

def isBlockSafeToConflate (blockNumber : Nat) : Bool :=
  s.app.manager.isBlockSafeToConflate blockNumber

-- L1 and the sequencer

/-- The sequencer takes the forced transaction into the block after its head. -/
def process (ftxNumber : Nat) (inclusionResult : ForcedTransactionInclusionResult) :
    Option State :=
  if ftxNumber ∈ s.received ∧ ftxNumber ∉ s.statuses.map (·.ftxNumber) then
    some { s with statuses := s.statuses ++ [⟨ftxNumber, s.head + 1, inclusionResult⟩] }
  else none

def lineaFindForcedTransactionStatus (ftxNumber : Nat) :
    Option ForcedTransactionInclusionStatus :=
  s.statuses.find? fun status =>
    status.ftxNumber = ftxNumber ∧ status.blockNumber ≤ s.head

-- Start

def restart : State := { s with app := .fresh s.recorded }

/-- Nobody can add forced transactions to a contract that does not support them. -/
def checkVersion (supported : Bool) : Option State :=
  if s.app.phase = .starting then
    if supported then some { s with app := { s.app with phase := .resuming } }
    else if s.l1 = [] then
      some { s with app := { s.app with
        phase := .resuming
        manager := s.app.manager.forcedTransactionsUnsupportedYetByL1Contract } }
    else none
  else none

end State

def getLastProcessedForcedTransaction (forcedTransactionNumber : Option Nat)
    (ftxRecord : Option ForcedTransactionRecord) : Nat × Option ForcedTransactionRecord :=
  match forcedTransactionNumber with
  | none => (0, none)
  | some finalized =>
    let highestProcessed := max finalized (ftxRecord.elim 0 (·.ftxNumber))
    if some highestProcessed = ftxRecord.map (·.ftxNumber) then (highestProcessed, ftxRecord)
    else (highestProcessed, none)

/-- The latest forced transaction of the database locks conflation at the start. -/
def SafeBlockNumberManager.resumeAt (m : SafeBlockNumberManager) :
    (ftxRecord : Option ForcedTransactionRecord) → Except IllegalState SafeBlockNumberManager
  | none => .ok m
  | some ftxRecord =>
    m.ftxProcessedBySequencer ftxRecord.ftxNumber ftxRecord.simulatedExecutionBlockNumber

namespace State

variable (config : Config) (s : State)

def findHighestForcedTransaction : Option ForcedTransactionRecord :=
  s.ftxDao.argmax (·.ftxNumber)

/-- L1 finalizes a forced transaction only when the ones up to it were processed. -/
def resume (forcedTransactionNumber : Option Nat) : Option State :=
  if s.app.phase = .resuming ∧
      ∀ n ∈ List.range' 1 (forcedTransactionNumber.getD 0), n ∈ s.statuses.map (·.ftxNumber) then
    let (lastProcessed, ftxRecord) :=
      getLastProcessedForcedTransaction forcedTransactionNumber s.findHighestForcedTransaction
    match s.app.manager.resumeAt ftxRecord with
    | .error _ => none
    | .ok manager => some { s with app := { s.app with
        phase := .running
        manager
        nextExpectedFtxNumber := lastProcessed + 1
        nextExpectedFtx := lastProcessed + 1 } }
  else none

-- The fetcher

def searchL1 : Option State :=
  if s.app.phase = .running then some { s with app := { s.app with l1End := some s.l1.length } }
  else none

def queueCapacity : Nat := 10000

/-- When the queue is full the event is delivered again later. -/
def onNewForcedTransaction : Option State :=
  if s.app.l1End.any (s.app.nextExpectedFtx ≤ ·) ∧ s.app.ftxQueue.length < queueCapacity then
    match s.l1[s.app.nextExpectedFtx - 1]? with
    | none => none
    | some l1BlockTimestamp => some { s with app := { s.app with
        ftxQueue := s.app.ftxQueue ++ [⟨s.app.nextExpectedFtx, l1BlockTimestamp⟩]
        nextExpectedFtx := s.app.nextExpectedFtx + 1 } }
  else none

def caughtUp : Option State :=
  if s.app.l1End.any (· < s.app.nextExpectedFtx) then
    some { s with app := { s.app with
      manager := s.app.manager.caughtUpWithChainHeadAfterStartUp } }
  else none

-- The sender

def goto (tick : Tick) : State := { s with app := { s.app with tick } }

def withManager (manager : SafeBlockNumberManager) : State :=
  { s with app := { s.app with manager } }

/-- The next step of the tick. An exception ends it. -/
def tick : Option State :=
  match s.app.tick with
  | .idle =>
    if s.app.phase = .running then
      some (s.goto (.processing (consecutiveFtxs s.app.nextExpectedFtxNumber s.app.ftxQueue)))
    else none
  | .processing [] => some (s.goto (.filtering []))
  | .processing (ftx :: remaining) =>
    if ftx.forcedTransactionNumber ∈ s.recorded then some (s.goto (.removing ftx remaining))
    else some (s.goto (.checking ftx remaining))
  | .checking ftx remaining =>
    match s.lineaFindForcedTransactionStatus ftx.forcedTransactionNumber with
    | none => some (s.goto (.filtering (ftx :: remaining)))
    | some ftxStatus => some (s.goto (.saving ftx ftxStatus remaining))
  | .saving ftx ftxStatus remaining =>
    some { s with
      ftxDao := s.ftxDao ++
        [⟨ftx.forcedTransactionNumber, ftxStatus.inclusionResult, ftxStatus.blockNumber⟩]
      app := { s.app with tick := .saved ftx ftxStatus remaining } }
  | .saved ftx ftxStatus remaining =>
    match s.app.manager.ftxProcessedBySequencer ftx.forcedTransactionNumber
        ftxStatus.blockNumber with
    | .error _ => some (s.goto .idle)
    | .ok manager => some ((s.withManager manager).goto (.adding ftx ftxStatus remaining))
  | .adding ftx ftxStatus remaining =>
    if s.app.ftxProcessedQueue.length < queueCapacity then
      some { s with app := { s.app with
        ftxProcessedQueue := s.app.ftxProcessedQueue ++ [ftxStatus]
        processed := s.app.processed ++ [ftxStatus.ftxNumber]
        tick := .removing ftx remaining } }
    else some (s.goto .idle)
  | .removing ftx remaining =>
    some { s with app := { s.app with
      ftxQueue := s.app.ftxQueue.filter (·.forcedTransactionNumber ≠ ftx.forcedTransactionNumber)
      nextExpectedFtxNumber := ftx.forcedTransactionNumber + 1
      tick := .processing remaining } }
  | .filtering ftxs =>
    match ftxs.filter (config.isReady s.now) with
    | [] => some (s.goto .releasing)
    | unprocessedFtx => some (s.goto (.readingHead unprocessedFtx))
  | .releasing => some ((s.withManager s.app.manager.unprocessedFtxQueueIsEmpty).goto .idle)
  | .readingHead unprocessedFtx => some (s.goto (.locking s.head unprocessedFtx))
  | .locking latestBlockNumber unprocessedFtx =>
    some ((s.withManager
      (s.app.manager.lockSafeBlockNumberBeforeSendingToSequencer latestBlockNumber)).goto
        (.flagging (unprocessedFtx.take config.maxFtxToSendToSequencer)))
  | .flagging unprocessedFtxToSend =>
    match s.app.manager.ftxSentToSequencer
        (unprocessedFtxToSend.map (·.forcedTransactionNumber)) with
    | .error _ => some (s.goto .idle)
    | .ok manager => some ((s.withManager manager).goto (.sending unprocessedFtxToSend))
  | .sending unprocessedFtxToSend =>
    some { s with
      sent := s.sent ++ unprocessedFtxToSend.map (·.forcedTransactionNumber)
      app := { s.app with tick := .idle } }

def fail : Option State :=
  match s.app.tick with
  | .processing (_ :: _) | .checking .. | .saving .. | .readingHead _ => some (s.goto .idle)
  | _ => none

end State

def step (config : Config) (s : State) : Action → Option State
  | .addForcedTransaction l1BlockTimestamp => some { s with l1 := s.l1 ++ [l1BlockTimestamp] }
  | .passTime d => some { s with now := s.now + d }
  | .produceBlock => some { s with head := s.head + 1 }
  | .receive ftxNumber =>
    if ftxNumber ∈ s.sent then some { s with received := s.received ++ [ftxNumber] } else none
  | .process ftxNumber inclusionResult => s.process ftxNumber inclusionResult
  | .restart => some s.restart
  | .checkVersion supported => s.checkVersion supported
  | .resume forcedTransactionNumber => s.resume forcedTransactionNumber
  | .searchL1 => s.searchL1
  | .onNewForcedTransaction => s.onNewForcedTransaction
  | .caughtUp => s.caughtUp
  | .tick => s.tick config
  | .fail => s.fail
  | .consume =>
    some { s with app := { s.app with ftxProcessedQueue := s.app.ftxProcessedQueue.tail } }

end StatusNetwork.ForcedTransactions
