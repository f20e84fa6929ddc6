import Mathlib.Data.List.Basic
import Mathlib.Logic.Function.Basic
import StatusNetwork.Base.Interleaving

/-!
# The forced transaction pool of the sequencer

Models `LineaForcedTransactionPool.java`. Transactions are added at the end of a concurrent queue;
block building evaluates them in order and notes tentative rejections, one map of them for each
block number; the import of a block takes the transactions it settles off the queue. Adding,
building and importing run concurrently, any number of building attempts at a time and one import.
-/

namespace StatusNetwork.Sequencer.ForcedTransactionPool

abbrev Hash := BitVec 256

structure ForcedTransaction where
  forcedTransactionNumber : Nat
  txHash : Hash
  sender : BitVec 160
  deriving DecidableEq

inductive InclusionResult
  | included
  | badNonce
  | badBalance
  | badPrecompile
  | tooManyLogs
  | filteredAddressFrom
  | filteredAddressTo
  | phylax
  | other
  deriving DecidableEq

def InclusionResult.shouldRetry (r : InclusionResult) : Bool := r = .other

/-- What the transaction selectors answer. -/
inductive SelectionResult
  | selected
  | txFilteredAddressFrom
  | txFilteredAddressTo
  | notSelected (maybeInvalidReason : Option String)
  deriving DecidableEq

def nonceErrors : List String := ["NONCE_TOO_HIGH", "NONCE_TOO_LOW", "NONCE_OVERFLOW"]

def balanceErrors : List String := ["UPFRONT_COST_EXCEEDS_BALANCE", "UPFRONT_COST_EXCEEDS_UINT256"]

def mapToInclusionResult : SelectionResult → InclusionResult
  | .txFilteredAddressFrom => .filteredAddressFrom
  | .txFilteredAddressTo => .filteredAddressTo
  | .notSelected (some invalidReason) =>
    if invalidReason ∈ nonceErrors then .badNonce
    else if invalidReason ∈ balanceErrors then .badBalance
    else if invalidReason = "PRECOMPILE_RIPEMD_BLOCKS" ∨
        invalidReason = "PRECOMPILE_BLAKE_EFFECTIVE_CALLS" then .badPrecompile
    else if invalidReason = "BLOCK_L2_L1_LOGS" then .tooManyLogs
    else .other
  | .notSelected none | .selected => .other

structure TentativeRejection where
  transaction : ForcedTransaction
  inclusionResult : InclusionResult
  deriving DecidableEq

/-- A map of tentative rejections by forced transaction number, and the block number it was made
for. -/
structure BlockRejections where
  blockNumber : Nat
  get : Nat → Option TentativeRejection

structure Status where
  forcedTransactionNumber : Nat
  txHash : Hash
  sender : BitVec 160
  blockNumber : Nat
  blockTimestamp : Nat
  inclusionResult : InclusionResult
  deriving DecidableEq

inductive EventType
  | headAdvanced
  | fork
  | chainReorg
  | storedOnly
  deriving DecidableEq

structure AddedBlock where
  number : Nat
  timestamp : Nat
  transactions : List Hash
  deriving DecidableEq

/-- A node of the queue. Nodes are numbered in the order they are linked. -/
structure Node where
  id : Nat
  ftx : ForcedTransaction
  deriving DecidableEq

/-- Where a call of `processForBlock` stands. A reference to a map of rejections is its position in
`Pool.rejections`; an iterator is the node it will return next. -/
inductive Building
  | started
  | opened (blockRejections : Nat)
  | evaluating (blockRejections : Nat) (next : Option Node) (index : Nat)
  | finished
  deriving DecidableEq

structure Attempt where
  blockNumber : Nat
  progress : Building
  deriving DecidableEq

inductive Importing
  | started
  | cleaned
  | opened (blockRejections : Option Nat)
  | settling (blockRejections : Option Nat) (next : Option Node)
  deriving DecidableEq

structure Import where
  event : Nat
  block : AddedBlock
  progress : Importing
  deriving DecidableEq

/-- A call of `recordStatus` in the import of the `event`-th block. -/
structure Resolution where
  event : Nat
  ftx : ForcedTransaction
  status : Status
  deriving DecidableEq

structure Pool where
  pendingQueue : List Node
  nextId : Nat
  tentativeRejectionsByBlock : Nat → Option Nat
  rejections : List BlockRejections
  attempts : List Attempt
  importing : Option Import
  /-- What has happened so far: the statuses recorded, the transactions added, the blocks imported,
  and what was evaluated at index 0 in an attempt for which block number. -/
  resolved : List Resolution
  added : List ForcedTransaction
  imported : List AddedBlock
  evaluatedFirst : List (Nat × ForcedTransaction)

inductive Action
  | addLast (ftx : ForcedTransaction)
  | processForBlock (blockNumber : Nat)
  /-- The next step of an attempt; the selectors' answer counts if it evaluates something. -/
  | build (i : Nat) (result : SelectionResult)
  | onBlockAdded (eventType : EventType) (block : AddedBlock)
  | settle

namespace Pool

variable (s : Pool)

/-- The node an iterator moves on to: the next one still linked. -/
def succ (n : Node) : Option Node := s.pendingQueue.find? (n.id < ·.id)

def addLast (ftx : ForcedTransaction) : Pool :=
  { s with
    pendingQueue := s.pendingQueue ++ [⟨s.nextId, ftx⟩]
    nextId := s.nextId + 1
    added := s.added ++ [ftx] }

def computeIfAbsent (blockNumber : Nat) : Pool × Nat :=
  match s.tentativeRejectionsByBlock blockNumber with
  | some ref => (s, ref)
  | none =>
    ({ s with
        tentativeRejectionsByBlock :=
          Function.update s.tentativeRejectionsByBlock blockNumber (some s.rejections.length)
        rejections := s.rejections ++ [⟨blockNumber, fun _ => none⟩] },
      s.rejections.length)

def putRejection (ref : Nat) (r : TentativeRejection) : Pool :=
  { s with rejections := s.rejections.modify ref fun m =>
      { m with get := Function.update m.get r.transaction.forcedTransactionNumber (some r) } }

def evaluated (blockNumber index : Nat) (ftx : ForcedTransaction) : Pool :=
  if index = 0 then { s with evaluatedFirst := s.evaluatedFirst ++ [(blockNumber, ftx)] } else s

def evaluate (blockNumber ref : Nat) (n : Node) (index : Nat) (result : SelectionResult) :
    Pool × Building :=
  let s' := s.evaluated blockNumber index n.ftx
  if result = .selected then (s', .evaluating ref (s.succ n) (index + 1))
  else
    let inclusionResult := mapToInclusionResult result
    if index = 0 ∧ inclusionResult.shouldRetry = false then
      (s'.putRejection ref ⟨n.ftx, inclusionResult⟩, .finished)
    else (s', .finished)

def build (a : Attempt) (result : SelectionResult) : Option (Pool × Building) :=
  match a.progress with
  | .started =>
    let (s', ref) := s.computeIfAbsent a.blockNumber
    some (s', .opened ref)
  | .opened ref => some (s, .evaluating ref s.pendingQueue.head? 0)
  | .evaluating _ none _ => some (s, .finished)
  | .evaluating ref (some n) index => some (s.evaluate a.blockNumber ref n index result)
  | .finished => none

def recordStatus (i : Import) (n : Node) (result : InclusionResult) : Pool :=
  { s with
    pendingQueue := s.pendingQueue.filter (·.id ≠ n.id)
    resolved := s.resolved ++ [
      { event := i.event
        ftx := n.ftx
        status :=
          { forcedTransactionNumber := n.ftx.forcedTransactionNumber
            txHash := n.ftx.txHash
            sender := n.ftx.sender
            blockNumber := i.block.number
            blockTimestamp := i.block.timestamp
            inclusionResult := result } }] }

def rejection (ref : Option Nat) (n : Node) : Option TentativeRejection := do
  let m ← s.rejections[← ref]?
  m.get n.ftx.forcedTransactionNumber

def settleNode (i : Import) (ref : Option Nat) (n : Node) : Pool :=
  if n.ftx.txHash ∈ i.block.transactions then
    { s.recordStatus i n .included with
      importing := some { i with progress := .settling ref (s.succ n) } }
  else
    match s.rejection ref n with
    | some r => { s.recordStatus i n r.inclusionResult with importing := none }
    | none => { s with importing := none }

def settle (i : Import) : Pool :=
  match i.progress with
  | .started =>
    { s with
      tentativeRejectionsByBlock := fun bn =>
        if bn < i.block.number then none else s.tentativeRejectionsByBlock bn
      importing := some { i with progress := .cleaned } }
  | .cleaned =>
    { s with
      tentativeRejectionsByBlock :=
        Function.update s.tentativeRejectionsByBlock i.block.number none
      importing :=
        some { i with progress := .opened (s.tentativeRejectionsByBlock i.block.number) } }
  | .opened ref =>
    { s with importing := some { i with progress := .settling ref s.pendingQueue.head? } }
  | .settling _ none => { s with importing := none }
  | .settling ref (some n) => s.settleNode i ref n

end Pool

def step (s : Pool) : Action → Option Pool
  | .addLast ftx => some (s.addLast ftx)
  | .processForBlock blockNumber =>
    if s.pendingQueue = [] then some s
    else some { s with attempts := s.attempts ++ [⟨blockNumber, .started⟩] }
  | .build i result => do
    let a ← s.attempts[i]?
    let (s', p) ← s.build a result
    some { s' with attempts := s.attempts.set i { a with progress := p } }
  | .onBlockAdded eventType block =>
    if eventType ≠ .headAdvanced then some s
    else if s.importing.isSome then none
    else some { s with
      importing := some { event := s.imported.length, block, progress := .started }
      imported := s.imported ++ [block] }
  | .settle => do
    let i ← s.importing
    some (s.settle i)

def initial : Pool where
  pendingQueue := []
  nextId := 0
  tentativeRejectionsByBlock _ := none
  rejections := []
  attempts := []
  importing := none
  resolved := []
  added := []
  imported := []
  evaluatedFirst := []

abbrev Reaches : Pool → Prop := Interleaving.Reaches step (fun _ _ => True) initial

end StatusNetwork.Sequencer.ForcedTransactionPool
