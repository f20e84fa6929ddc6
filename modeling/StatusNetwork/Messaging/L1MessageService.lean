import StatusNetwork.Base.Merkle
import StatusNetwork.Messaging.Message

/-!
# The message service on L1

Models `L1MessageManager.sol`, `L1MessageServiceBase.sol`, `L1MessageService.sol` and
`ClaimMessageV1.sol`. A claim calls its recipient, who may call the contract again before the claim
goes on: a claim is therefore two steps, up to the external call and from there on, with `inFlight`
for what the transient storage holds between them. A call that reverts leaves no trace, so that a
run consists of the calls that succeed.
-/

namespace StatusNetwork.Messaging

open Security (Address Pausing RateLimiter)

variable {D : Type} [DecidableEq D] (H : Hashing D)

-- The message manager

structure L1MessageManager (D : Type) where
  rollingHashes : Nat → D
  messageClaimed : Nat → Bool
  l2MerkleRootsDepths : D → Nat
  inboxL2L1MessageStatus : D → InboxStatus

namespace L1MessageManager

variable (s : L1MessageManager D)

/-- Message numbers start at one. -/
def addRollingHash (messageNumber : Nat) (messageHash : D) : L1MessageManager D :=
  { s with
    rollingHashes := Function.update s.rollingHashes messageNumber
      (H.efficientKeccak (s.rollingHashes (messageNumber - 1)) messageHash) }

def setL2L1MessageToClaimed (messageNumber : Nat) : Except (Revert D) (L1MessageManager D) := do
  failIf (s.messageClaimed messageNumber) (.messageAlreadyClaimed messageNumber)
  .ok { s with messageClaimed := Function.update s.messageClaimed messageNumber true }

def addL2MerkleRoots (newRoots : List D) (treeDepth : Nat) :
    Except (Revert D) (L1MessageManager D) :=
  newRoots.foldlM (fun s root => do
    failIf (s.l2MerkleRootsDepths root ≠ 0) (.l2MerkleRootAlreadyAnchored root)
    .ok { s with l2MerkleRootsDepths := Function.update s.l2MerkleRootsDepths root treeDepth }) s

def anchorL2MessagingBlocks (l2MessagingBlocksOffsets : Bytes) : Except (Revert D) Unit :=
  failIf (l2MessagingBlocksOffsets.length % 2 ≠ 0)
    (.bytesLengthNotMultipleOfTwo l2MessagingBlocksOffsets.length)

def updateL2L1MessageStatusToClaimed (messageHash : D) :
    Except (Revert D) (L1MessageManager D) := do
  failIf (s.inboxL2L1MessageStatus messageHash ≠ .received)
    (.messageDoesNotExistOrHasAlreadyBeenClaimed messageHash)
  .ok { s with
    inboxL2L1MessageStatus := Function.update s.inboxL2L1MessageStatus messageHash .unknown }

end L1MessageManager

-- Merkle proofs

def safeCastToUint32 (value : Nat) : Except (Revert D) Nat := do
  failIf (value > 2 ^ 32 - 1) (.safeCastOverflowedUintDowncast 32 value)
  .ok value

/-- `SparseMerkleTreeVerifier._verifyMerkleProof`. -/
def verifyMerkleProof (leafHash : D) (proof : List D) (leafIndex : UInt32) (root : D) :
    Except (Revert D) Bool := do
  failIf (Checked.size ≤ 2 ^ proof.length) (.arithmetic .overflow)
  let maxAllowedIndex ← safeCastToUint32 (2 ^ proof.length - 1)
  failIf (leafIndex.toNat > maxAllowedIndex)
    (.leafIndexOutOfBounds leafIndex.toNat maxAllowedIndex)
  let node := proof.zipIdx.foldl (fun node (sibling, height) =>
    if leafIndex.toNat >>> height &&& 1 = 1 then H.efficientKeccak sibling node
    else H.efficientKeccak node sibling) leafHash
  .ok (node = root)

-- The message service

structure ClaimMessageWithProofParams (D : Type) where
  proof : List D
  messageNumber : Nat
  leafIndex : UInt32
  sender : Address
  destination : Address
  fee : Nat
  value : Nat
  feeRecipient : Address
  merkleRoot : D
  data : Bytes

def ClaimMessageWithProofParams.message (params : ClaimMessageWithProofParams D) : Message where
  sender := params.sender
  destination := params.destination
  fee := params.fee
  value := params.value
  messageNumber := params.messageNumber
  data := params.data

inductive Claim (D : Type)
  | claimMessageWithProof (params : ClaimMessageWithProofParams D)
  | claimMessageWithProofAndWithdrawLST (params : ClaimMessageWithProofParams D)
  | claimMessage (message : Message) (feeRecipient : Address)

/-- A claim that waits for its external call to return. -/
structure InFlight (D : Type) where
  sender : Address
  claim : Claim D

structure L1MessageService (D : Type) extends L1MessageManager D where
  security : Pausing
  limiter : RateLimiter
  balance : Nat
  nextMessageNumber : Nat
  inFlight : Option (InFlight D)

namespace L1MessageService

variable (s : L1MessageService D)

def requireTypeAndGeneralNotPaused (pauseType : Security.PauseType) : Except (Revert D) Unit :=
  (s.security.manager.requireTypeAndGeneralNotPaused pauseType).mapError .security

def addUsedAmount (now usedAmount : Nat) : Except (Revert D) (L1MessageService D) :=
  ((s.limiter.addUsedAmount now usedAmount).mapError .security).map fun limiter =>
    { s with limiter }

def sentMessage (e : Env) (destination : Address) (fee : Nat) (data : Bytes) : Message where
  sender := e.sender
  destination := destination
  fee := fee
  value := e.value - fee
  messageNumber := s.nextMessageNumber
  data := data

/-- Numbers a message and adds its hash to the rolling hashes. -/
def addMessage (message : Message) : Except (Revert D) (L1MessageService D) := do
  let nextMessageNumber ← add s.nextMessageNumber 1
  .ok { s with
    toL1MessageManager := s.addRollingHash H message.messageNumber (H.hashMessage message)
    nextMessageNumber }

def sendMessage (e : Env) (destination : Address) (fee : Nat) (data : Bytes) :
    Except (Revert D) (L1MessageService D) := do
  s.requireTypeAndGeneralNotPaused .l1L2
  failIf (destination = 0) .zeroAddressNotAllowed
  failIf (fee > e.value) .valueSentTooLow
  let s ← s.addMessage H (s.sentMessage e destination fee data)
  .ok { s with balance := s.balance + e.value }

/-- What both entry points that take a proof check, and that they mark the message as claimed. -/
def validateAndConsumeMessageProof (now : Nat) (params : ClaimMessageWithProofParams D) :
    Except (Revert D) (L1MessageService D) := do
  s.requireTypeAndGeneralNotPaused .l2L1
  let merkleDepth := s.l2MerkleRootsDepths params.merkleRoot
  failIf (merkleDepth = 0) .l2MerkleRootDoesNotExist
  failIf (merkleDepth ≠ params.proof.length)
    (.proofLengthDifferentThanMerkleDepth merkleDepth params.proof.length)
  let manager ← s.setL2L1MessageToClaimed params.messageNumber
  let amount ← add params.fee params.value
  let s ← addUsedAmount { s with toL1MessageManager := manager } now amount
  let messageLeafHash := H.hashMessage params.message
  let valid ← verifyMerkleProof H messageLeafHash params.proof params.leafIndex params.merkleRoot
  failIf (valid = false) .invalidMerkleProof
  .ok s

def nonReentrant : Except (Revert D) Unit :=
  failIf s.inFlight.isSome .reentrantCall

/-- The external call of a claim takes its value, and whoever is called may do anything. -/
def callRecipient (sender : Address) (claim : Claim D) (destination : Address) (value : Nat) :
    Except (Revert D) (L1MessageService D) := do
  failIf (s.balance < value) (.messageSendingFailed destination)
  .ok { s with balance := s.balance - value, inFlight := some ⟨sender, claim⟩ }

def claimMessageWithProof (e : Env) (params : ClaimMessageWithProofParams D) :
    Except (Revert D) (L1MessageService D) := do
  s.nonReentrant
  let s ← s.validateAndConsumeMessageProof H e.now params
  s.callRecipient e.sender (.claimMessageWithProof params) params.destination params.value

/-- Of `LineaRollupYieldExtension`. The external call is to the yield manager and takes no ETH. -/
def claimMessageWithProofAndWithdrawLST (e : Env) (params : ClaimMessageWithProofParams D) :
    Except (Revert D) (L1MessageService D) := do
  s.nonReentrant
  failIf (params.value ≤ s.balance) .lstWithdrawalRequiresDeficit
  failIf (e.sender ≠ params.destination) .callerNotLSTWithdrawalRecipient
  let s ← s.validateAndConsumeMessageProof H e.now params
  .ok { s with inFlight := some ⟨e.sender, .claimMessageWithProofAndWithdrawLST params⟩ }

/-- Of `ClaimMessageV1`. -/
def claimMessage (e : Env) (message : Message) (feeRecipient : Address) :
    Except (Revert D) (L1MessageService D) := do
  s.nonReentrant
  s.requireTypeAndGeneralNotPaused .l2L1
  let manager ← s.updateL2L1MessageStatusToClaimed (H.hashMessage message)
  let amount ← add message.fee message.value
  let s ← addUsedAmount { s with toL1MessageManager := manager } e.now amount
  s.callRecipient e.sender (.claimMessage message feeRecipient) message.destination message.value

-- Fees

def REFUND_OVERHEAD_IN_GAS : Nat := 48252

/-- What the fees of a claim depend on. -/
structure FeeEnv where
  gasUsed : Nat
  gasPrice : Nat
  isDestinationEOA : Bool
  /-- Whether an account takes an amount of ETH sent to it. -/
  accepts : Address → Nat → Bool

def send (f : FeeEnv) (recipient : Address) (amount : Nat) : Bool × L1MessageService D :=
  if amount ≤ s.balance ∧ f.accepts recipient amount then
    (true, { s with balance := s.balance - amount })
  else (false, s)

/-- What `distributeFees` does after the function it modifies. -/
def distributeFees (f : FeeEnv) (sender : Address) (feeInWei : Nat) (destination : Address)
    (data : Bytes) (feeRecipient : Address) : Except (Revert D) (L1MessageService D) :=
  if feeInWei > 0 then do
    let (s, deliveryFee) ← (
      if data.length = 0 ∧ f.isDestinationEOA then do
        let gas ← add f.gasUsed REFUND_OVERHEAD_IN_GAS
        let deliveryFee ← Checked.mul .arithmetic gas f.gasPrice
        -- the refund may fail without further notice
        .ok (if feeInWei > deliveryFee
          then ((s.send f destination (feeInWei - deliveryFee)).2, deliveryFee)
          else (s, feeInWei))
      else .ok (s, feeInWei))
    let feeReceiver := if feeRecipient = 0 then sender else feeRecipient
    let (callSuccess, s) := s.send f feeReceiver deliveryFee
    failIf (callSuccess = false) (.feePaymentFailed feeReceiver)
    .ok s
  else .ok s

def finishClaim (f : FeeEnv) : Except (Revert D) (L1MessageService D) :=
  match s.inFlight with
  | none => .error .notEntered
  | some ⟨sender, claim⟩ => do
    let s ← (match claim with
      | .claimMessageWithProof params =>
        s.distributeFees f sender params.fee params.destination params.data params.feeRecipient
      | .claimMessageWithProofAndWithdrawLST _ => .ok s
      | .claimMessage message feeRecipient =>
        s.distributeFees f sender message.fee message.destination message.data feeRecipient)
    .ok { s with inFlight := none }

end L1MessageService

end StatusNetwork.Messaging
