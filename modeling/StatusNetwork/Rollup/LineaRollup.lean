import StatusNetwork.Messaging.L1MessageService

/-!
# The rollup contract

Models `LineaRollup.sol` with the contracts it inherits: `LineaRollupBase.sol`,
`LineaRollupYieldExtension.sol`, `LivenessRecovery.sol`, `Eip4844BlobAcceptor.sol`,
`ShnarfDataAcceptorBase.sol` and `LocalShnarfProvider.sol`. What other contracts and the point
evaluation precompile answer is part of a call.
-/

namespace StatusNetwork.Rollup

open Security (Address Role Roles PauseType Pausing RateLimiter)
open Messaging (Bytes Message Env L1MessageManager L1MessageService Claim)

structure ShnarfData (D : Type) where
  parentShnarf : D
  snarkHash : D
  finalStateRootHash : D
  dataEvaluationPoint : D
  dataEvaluationClaim : D

structure FinalizationDataV3 (D : Type) where
  parentStateRootHash : D
  endBlockNumber : Nat
  shnarfData : ShnarfData D
  lastFinalizedTimestamp : Nat
  finalTimestamp : Nat
  lastFinalizedL1RollingHash : D
  l1RollingHash : D
  lastFinalizedL1RollingHashMessageNumber : Nat
  l1RollingHashMessageNumber : Nat
  l2MerkleTreesDepth : Nat
  l2MerkleRoots : List D
  l2MessagingBlocksOffsets : Bytes

/-- The hashes of the rollup, over words that are read as numbers and back. -/
structure Hashing (D : Type) extends Messaging.Hashing D where
  uint256 : D → Nat
  bytes32 : Nat → D
  computeShnarf (parentShnarf snarkHash finalStateRootHash dataEvaluationPoint
    dataEvaluationClaim : D) : D
  computeLastFinalizedState (messageNumber : Nat) (rollingHash : D) (timestamp : Nat) : D
  /-- The hash of `_computePublicInput`. -/
  publicInputHash (data : FinalizationDataV3 D) (lastFinalizedShnarf finalShnarf : D)
    (lastFinalizedBlockNumber : Nat) (chainConfiguration : D) : Nat

def OPERATOR_ROLE : Role :=
  .named 0x97667070c54ef182b0f5858b034beac1b6f3089aa2d3188bb1e8929f4fa9b929

def VERIFIER_SETTER_ROLE : Role :=
  .named 0x32937fd5162e282df7e9a14a5073a2425321c7966eaf70ed6c838a1006d84c4c

def VERIFIER_UNSETTER_ROLE : Role :=
  .named 0x6b5661ddfbd1fbd525c902a513e0f47d9c74f1c1ee8a2d4f1937ad305fb8f41a

def YIELD_PROVIDER_STAKING_ROLE : Role :=
  .named 0x220bd22ef7c53d75fe3eac0a09e90815a0c5ba4f9e8da8b039542cd3db347258

def SET_YIELD_MANAGER_ROLE : Role :=
  .named 0x76ef52a5344b10ed112c1d48c7c06f51e919518ea6fb005f9b25b359b955e3be

def BLS_CURVE_MODULUS : Nat :=
  52435875175126190479447740508185965837690552500527637822603658699938581184513

def POINT_EVALUATION_RETURN_DATA_LENGTH : Nat := 64

def POINT_EVALUATION_FIELD_ELEMENTS_LENGTH : Nat := 4096

def MODULO_R : Nat :=
  21888242871839275222246405745257275088548364400416034343698204186575808495617

def SIX_MONTHS_IN_SECONDS : Nat := (365 / 2) * 24 * 60 * 60

def SHNARF_EXISTS_DEFAULT_VALUE : Nat := 1

inductive Revert (D : Type)
  | messaging (e : Messaging.Revert D)
  | zeroAddressNotAllowed
  | zeroHashNotAllowed
  | onlyNonLivenessRecoveryOperator
  | lastFinalizationTimeNotLapsed
  | blobSubmissionDataIsMissing
  | blobSubmissionDataEmpty (emptyBlobIndex : Nat)
  | emptyBlobDataAtIndex (index : Nat)
  | pointEvaluationFailed
  | precompileReturnDataLengthWrong (expected actual : Nat)
  | pointEvaluationResponseInvalid (fieldElements blsCurveModulus : Nat)
  | parentShnarfNotSubmitted (shnarf : D)
  | shnarfAlreadySubmitted (shnarf : D)
  | finalShnarfWrong (expected value : D)
  | proofIsEmpty
  | startingRootHashDoesNotMatch
  | invalidProofType
  | missingMessageNumberForRollingHash (rollingHash : D)
  | missingRollingHashForMessageNumber (messageNumber : Nat)
  | l1RollingHashDoesNotExistOnL1 (messageNumber : Nat) (rollingHash : D)
  | finalizationStateIncorrect (expected value : D)
  | finalizationInTheFuture (l2BlockTimestamp currentBlockTimestamp : Nat)
  | finalBlockStateEqualsZeroHash
  | finalShnarfNotSubmitted (shnarf : D)
  | invalidProofOrProofVerificationRanOutOfGas
  | invalidProof
  | yieldManagerReverted
  deriving DecidableEq

structure LineaRollup (D : Type) extends L1MessageService D where
  self : Address
  currentL2BlockNumber : Nat
  stateRootHashes : Nat → D
  verifiers : Nat → Address
  currentFinalizedShnarf : D
  blobShnarfExists : D → Nat
  currentFinalizedState : D
  livenessRecoveryOperator : Address
  shnarfProvider : Address
  yieldManager : Address

variable {D : Type} [DecidableEq D] [Zero D] (H : Hashing D)

-- Deployment

structure BaseInitializationData (D : Type) where
  initialStateRootHash : D
  initialL2BlockNumber : Nat
  genesisTimestamp : Nat
  defaultVerifier : Address
  rateLimitPeriodInSeconds : Nat
  rateLimitAmountInWei : Nat
  roleAddresses : List (Role × Address)
  pauseTypeRoles : List (PauseType × Role)
  unpauseTypeRoles : List (PauseType × Role)
  defaultAdmin : Address
  shnarfProvider : Address

def genesisShnarf (initialStateRootHash : D) : D := H.computeShnarf 0 0 initialStateRootHash 0 0

/-- `initialize`, of a contract at the address `self` that may hold ETH already. -/
def LineaRollup.initialized (self : Address) (balance now : Nat) (data : BaseInitializationData D)
    (livenessRecoveryOperator yieldManager : Address) : Except (Revert D) (LineaRollup D) := do
  failIf (data.defaultVerifier = 0) .zeroAddressNotAllowed
  let limiter ← (RateLimiter.initialized now data.rateLimitPeriodInSeconds
    data.rateLimitAmountInWei).mapError fun e => .messaging (.security e)
  failIf (data.defaultAdmin = 0) .zeroAddressNotAllowed
  let admin := Roles.setRole ⟨fun _ _ => false⟩ .defaultAdmin data.defaultAdmin true
  let roles ← admin.permissionsInit .zeroAddressNotAllowed .zeroHashNotAllowed data.roleAddresses
  failIf (livenessRecoveryOperator = 0) .zeroAddressNotAllowed
  failIf (yieldManager = 0) .zeroAddressNotAllowed
  .ok {
    rollingHashes := fun _ => 0
    messageClaimed := fun _ => false
    l2MerkleRootsDepths := fun _ => 0
    inboxL2L1MessageStatus := fun _ => .unknown
    security := ⟨roles, .initialized data.pauseTypeRoles data.unpauseTypeRoles⟩
    limiter
    balance
    nextMessageNumber := 1
    inFlight := none
    self
    currentL2BlockNumber := data.initialL2BlockNumber
    stateRootHashes := Function.update (fun _ => 0) data.initialL2BlockNumber
      data.initialStateRootHash
    verifiers := Function.update (fun _ => 0) 0 data.defaultVerifier
    currentFinalizedShnarf := genesisShnarf H data.initialStateRootHash
    blobShnarfExists := Function.update (fun _ => 0) (genesisShnarf H data.initialStateRootHash)
      SHNARF_EXISTS_DEFAULT_VALUE
    currentFinalizedState := H.computeLastFinalizedState 0 0 data.genesisTimestamp
    livenessRecoveryOperator
    shnarfProvider := if data.shnarfProvider = 0 then self else data.shnarfProvider
    yieldManager }

-- Data submission

structure BlobSubmission (D : Type) where
  dataEvaluationClaim : Nat
  kzgCommitment : Bytes
  kzgProof : Bytes
  finalStateRootHash : D
  snarkHash : D

inductive PrecompileAnswer
  | failed
  | returned (length fieldElements blsCurveModulus : Nat)
  deriving DecidableEq

abbrev Precompile (D : Type) :=
  (dataHash : D) → (dataEvaluationPoint dataEvaluationClaim : Nat) →
    (kzgCommitment kzgProof : Bytes) → PrecompileAnswer

/-- The blobs of a transaction by their versioned hashes, none of which is empty. -/
structure Blobs (D : Type) [Zero D] where
  hashes : List D
  hashes_ne : ∀ h ∈ hashes, h ≠ 0

def Blobs.blobhash (blobs : Blobs D) (index : Nat) : D := blobs.hashes.getD index 0

def verifyPointEvaluation (precompile : Precompile D) (currentDataHash : D)
    (dataEvaluationPoint dataEvaluationClaim : Nat) (kzgCommitment kzgProof : Bytes) :
    Except (Revert D) Unit :=
  match precompile currentDataHash (dataEvaluationPoint % BLS_CURVE_MODULUS) dataEvaluationClaim
    kzgCommitment kzgProof with
  | .failed => .error .pointEvaluationFailed
  | .returned length fieldElements blsCurveModulus => do
    failIf (length ≠ POINT_EVALUATION_RETURN_DATA_LENGTH)
      (.precompileReturnDataLengthWrong POINT_EVALUATION_RETURN_DATA_LENGTH length)
    failIf (fieldElements ≠ POINT_EVALUATION_FIELD_ELEMENTS_LENGTH ∨
        blsCurveModulus ≠ BLS_CURVE_MODULUS)
      (.pointEvaluationResponseInvalid fieldElements blsCurveModulus)

/-- One turn of the loop of `_submitBlobs`, for the blob at `index`. -/
def submitBlob (precompile : Precompile D) (blobs : Blobs D) (computedShnarf : D)
    (submission : BlobSubmission D) (index : Nat) : Except (Revert D) D := do
  let currentDataHash := blobs.blobhash index
  failIf (currentDataHash = 0) (.emptyBlobDataAtIndex index)
  let currentDataEvaluationPoint := H.efficientKeccak submission.snarkHash currentDataHash
  verifyPointEvaluation precompile currentDataHash (H.uint256 currentDataEvaluationPoint)
    submission.dataEvaluationClaim submission.kzgCommitment submission.kzgProof
  .ok (H.computeShnarf computedShnarf submission.snarkHash submission.finalStateRootHash
    currentDataEvaluationPoint (H.bytes32 submission.dataEvaluationClaim))

-- Finalization

inductive VerifierAnswer
  | reverted
  | returned (proofSucceeded : Bool)
  deriving DecidableEq

/-- What other contracts answer to a finalization. -/
structure FinalizationEnv (D : Type) where
  /-- `blobShnarfExists` of a shnarf provider other than the contract itself. -/
  blobShnarfExists : D → Nat
  chainConfiguration : D
  verify : Address → Bytes → (publicInput : Nat) → VerifierAnswer

namespace LineaRollup

variable (s : LineaRollup D)

def requireTypeAndGeneralNotPaused (pauseType : PauseType) : Except (Revert D) Unit :=
  (s.toL1MessageService.requireTypeAndGeneralNotPaused pauseType).mapError .messaging

def onlyRole (role : Role) (sender : Address) : Except (Revert D) Unit :=
  (s.security.roles.onlyRole role sender).mapError fun e => .messaging (.security e)

def service (result : Except (Messaging.Revert D) (L1MessageService D)) :
    Except (Revert D) (LineaRollup D) :=
  (result.mapError .messaging).map fun service => { s with toL1MessageService := service }

def acceptShnarfData (parentShnarf shnarf : D) : Except (Revert D) (LineaRollup D) := do
  failIf (s.blobShnarfExists parentShnarf = 0) (.parentShnarfNotSubmitted parentShnarf)
  failIf (s.blobShnarfExists shnarf ≠ 0) (.shnarfAlreadySubmitted shnarf)
  .ok { s with
    blobShnarfExists := Function.update s.blobShnarfExists shnarf SHNARF_EXISTS_DEFAULT_VALUE }

def submitBlobs (e : Env) (precompile : Precompile D) (blobs : Blobs D)
    (blobSubmissions : List (BlobSubmission D)) (parentShnarf finalBlobShnarf : D) :
    Except (Revert D) (LineaRollup D) := do
  s.requireTypeAndGeneralNotPaused .stateDataSubmission
  s.onlyRole OPERATOR_ROLE e.sender
  failIf (blobSubmissions.length = 0) .blobSubmissionDataIsMissing
  failIf (blobs.blobhash blobSubmissions.length ≠ 0)
    (.blobSubmissionDataEmpty blobSubmissions.length)
  let computedShnarf ← blobSubmissions.zipIdx.foldlM (fun computedShnarf (submission, index) =>
    submitBlob H precompile blobs computedShnarf submission index) parentShnarf
  let s ← s.acceptShnarfData parentShnarf finalBlobShnarf
  failIf (finalBlobShnarf ≠ computedShnarf) (.finalShnarfWrong finalBlobShnarf computedShnarf)
  .ok s

def validateL2ComputedRollingHash (rollingHashMessageNumber : Nat) (rollingHash : D) :
    Except (Revert D) Unit :=
  if rollingHashMessageNumber = 0 then
    failIf (rollingHash ≠ 0) (.missingMessageNumberForRollingHash rollingHash)
  else do
    failIf (rollingHash = 0)
      (.missingRollingHashForMessageNumber rollingHashMessageNumber)
    failIf (s.rollingHashes rollingHashMessageNumber ≠ rollingHash)
      (.l1RollingHashDoesNotExistOnL1 rollingHashMessageNumber rollingHash)

def providedShnarfExists (f : FinalizationEnv D) (shnarf : D) : Nat :=
  if s.shnarfProvider = s.self then s.blobShnarfExists shnarf else f.blobShnarfExists shnarf

def finalShnarf (data : FinalizationDataV3 D) : D :=
  H.computeShnarf data.shnarfData.parentShnarf data.shnarfData.snarkHash
    data.shnarfData.finalStateRootHash data.shnarfData.dataEvaluationPoint
    data.shnarfData.dataEvaluationClaim

/-- `_finalizeBlocks`. -/
def applyFinalization (now : Nat) (f : FinalizationEnv D) (data : FinalizationDataV3 D) :
    Except (Revert D) (LineaRollup D) := do
  s.validateL2ComputedRollingHash data.l1RollingHashMessageNumber data.l1RollingHash
  let lastFinalizedState := H.computeLastFinalizedState data.lastFinalizedL1RollingHashMessageNumber
    data.lastFinalizedL1RollingHash data.lastFinalizedTimestamp
  failIf (lastFinalizedState ≠ s.currentFinalizedState)
    (.finalizationStateIncorrect lastFinalizedState s.currentFinalizedState)
  failIf (data.finalTimestamp ≥ now) (.finalizationInTheFuture data.finalTimestamp now)
  failIf (data.shnarfData.finalStateRootHash = 0) .finalBlockStateEqualsZeroHash
  failIf (s.providedShnarfExists f (finalShnarf H data) = 0)
    (.finalShnarfNotSubmitted (finalShnarf H data))
  let manager ← (s.addL2MerkleRoots data.l2MerkleRoots data.l2MerkleTreesDepth).mapError .messaging
  (L1MessageManager.anchorL2MessagingBlocks data.l2MessagingBlocksOffsets).mapError .messaging
  .ok { s with
    toL1MessageManager := manager
    stateRootHashes := Function.update s.stateRootHashes data.endBlockNumber
      data.shnarfData.finalStateRootHash
    currentL2BlockNumber := data.endBlockNumber
    currentFinalizedShnarf := finalShnarf H data
    currentFinalizedState := H.computeLastFinalizedState data.l1RollingHashMessageNumber
      data.l1RollingHash data.finalTimestamp }

def computePublicInput (data : FinalizationDataV3 D) (lastFinalizedShnarf finalShnarf : D)
    (lastFinalizedBlockNumber : Nat) (verifierChainConfiguration : D) : Nat :=
  H.publicInputHash data lastFinalizedShnarf finalShnarf lastFinalizedBlockNumber
    verifierChainConfiguration % MODULO_R

def verifyProof (f : FinalizationEnv D) (publicInput : Nat) (verifier : Address) (proof : Bytes) :
    Except (Revert D) Unit :=
  match f.verify verifier proof publicInput with
  | .reverted => .error .invalidProofOrProofVerificationRanOutOfGas
  | .returned proofSucceeded => failIf (proofSucceeded = false) .invalidProof

def finalizeBlocks (e : Env) (f : FinalizationEnv D) (aggregatedProof : Bytes) (proofType : Nat)
    (data : FinalizationDataV3 D) : Except (Revert D) (LineaRollup D) := do
  s.requireTypeAndGeneralNotPaused .finalization
  s.onlyRole OPERATOR_ROLE e.sender
  failIf (aggregatedProof.length = 0) .proofIsEmpty
  let lastFinalizedBlockNumber := s.currentL2BlockNumber
  failIf (s.stateRootHashes lastFinalizedBlockNumber ≠ data.parentStateRootHash)
    .startingRootHashDoesNotMatch
  let verifier := s.verifiers proofType
  failIf (verifier = 0) .invalidProofType
  let s' ← s.applyFinalization H e.now f data
  let publicInput := computePublicInput H data s.currentFinalizedShnarf (finalShnarf H data)
    lastFinalizedBlockNumber f.chainConfiguration
  verifyProof f publicInput verifier aggregatedProof
  .ok s'

-- Settings

def setVerifierAddress (e : Env) (newVerifierAddress : Address) (proofType : Nat) :
    Except (Revert D) (LineaRollup D) := do
  s.onlyRole VERIFIER_SETTER_ROLE e.sender
  failIf (newVerifierAddress = 0) .zeroAddressNotAllowed
  .ok { s with verifiers := Function.update s.verifiers proofType newVerifierAddress }

def unsetVerifierAddress (e : Env) (proofType : Nat) : Except (Revert D) (LineaRollup D) := do
  s.onlyRole VERIFIER_UNSETTER_ROLE e.sender
  .ok { s with verifiers := Function.update s.verifiers proofType 0 }

def setLivenessRecoveryOperator (e : Env) (messageNumber : Nat) (rollingHash : D)
    (lastFinalizedTimestamp : Nat) : Except (Revert D) (LineaRollup D) := do
  let lapsed ← (Messaging.add lastFinalizedTimestamp SIX_MONTHS_IN_SECONDS).mapError .messaging
  failIf (e.now < lapsed) .lastFinalizationTimeNotLapsed
  let state := H.computeLastFinalizedState messageNumber rollingHash lastFinalizedTimestamp
  failIf (s.currentFinalizedState ≠ state)
    (.finalizationStateIncorrect s.currentFinalizedState state)
  .ok { s with security.roles :=
    s.security.roles.setRole OPERATOR_ROLE s.livenessRecoveryOperator true }

/-- Roles and pauses. The liveness recovery operator cannot renounce a role. -/
def secure (e : Env) (action : Pausing.Action) : Except (Revert D) (LineaRollup D) := do
  (match action with
    | .renounceRole _ account =>
      failIf (account = s.livenessRecoveryOperator) .onlyNonLivenessRecoveryOperator
    | _ => .ok ())
  let security ← (s.security.apply ⟨e.sender, e.now, e.now_lt, action⟩).mapError
    fun e => .messaging (.security e)
  .ok { s with security }

def limit (result : Except Security.Revert RateLimiter) : Except (Revert D) (LineaRollup D) :=
  (result.mapError fun e => .messaging (.security e)).map fun limiter => { s with limiter }

-- Native yield

def setYieldManager (e : Env) (newYieldManager : Address) : Except (Revert D) (LineaRollup D) := do
  s.onlyRole SET_YIELD_MANAGER_ROLE e.sender
  failIf (newYieldManager = 0) .zeroAddressNotAllowed
  .ok { s with yieldManager := newYieldManager }

/-- `accepted` is whether the yield manager took the funds. -/
def transferFundsForNativeYield (e : Env) (amount : Nat) (accepted : Bool) :
    Except (Revert D) (LineaRollup D) := do
  s.requireTypeAndGeneralNotPaused .nativeYieldStaking
  s.onlyRole YIELD_PROVIDER_STAKING_ROLE e.sender
  failIf (s.balance < amount ∨ accepted = false) .yieldManagerReverted
  .ok { s with balance := s.balance - amount }

def fund (e : Env) : Except (Revert D) (LineaRollup D) := do
  failIf (e.value = 0) (.messaging .noEthSent)
  .ok { s with balance := s.balance + e.value }

def yieldMessage (amount : Nat) (l2YieldRecipient : Address) : Message where
  sender := s.self
  destination := l2YieldRecipient
  fee := 0
  value := amount
  messageNumber := s.nextMessageNumber
  data := []

def reportNativeYield (e : Env) (amount : Nat) (l2YieldRecipient : Address) :
    Except (Revert D) (LineaRollup D) := do
  s.requireTypeAndGeneralNotPaused .l1L2
  failIf (e.sender ≠ s.yieldManager) (.messaging .callerIsNotYieldManager)
  failIf (l2YieldRecipient = 0) .zeroAddressNotAllowed
  s.service (s.addMessage H.toHashing (s.yieldMessage amount l2YieldRecipient))

/-- A flag that is set while `claimMessageWithProofAndWithdrawLST` calls the yield manager. -/
def isWithdrawLSTAllowed : Bool :=
  match s.inFlight with
  | some ⟨_, .claimMessageWithProofAndWithdrawLST _⟩ => true
  | _ => false

-- Calls

inductive Call (D : Type) [Zero D]
  | secure (action : Pausing.Action)
  | resetRateLimitAmount (amount : Nat)
  | resetAmountUsedInPeriod
  | setVerifierAddress (newVerifierAddress : Address) (proofType : Nat)
  | unsetVerifierAddress (proofType : Nat)
  | setLivenessRecoveryOperator (messageNumber : Nat) (rollingHash : D)
      (lastFinalizedTimestamp : Nat)
  | setYieldManager (newYieldManager : Address)
  | transferFundsForNativeYield (amount : Nat) (accepted : Bool)
  | fund
  /-- ETH that the contract gets without being called. -/
  | receiveEther
  | sendMessage (destination : Address) (fee : Nat) (data : Bytes)
  | reportNativeYield (amount : Nat) (l2YieldRecipient : Address)
  | submitBlobs (precompile : Precompile D) (blobs : Blobs D)
      (blobSubmissions : List (BlobSubmission D)) (parentShnarf finalBlobShnarf : D)
  | finalizeBlocks (f : FinalizationEnv D) (aggregatedProof : Bytes) (proofType : Nat)
      (data : FinalizationDataV3 D)
  | claim (claim : Claim D)
  | finishClaim (f : L1MessageService.FeeEnv)

structure Tx (D : Type) [Zero D] where
  env : Env
  call : Call D

def beginClaim (e : Env) : Claim D → Except (Messaging.Revert D) (L1MessageService D)
  | .claimMessageWithProof params => s.claimMessageWithProof H.toHashing e params
  | .claimMessageWithProofAndWithdrawLST params =>
    s.claimMessageWithProofAndWithdrawLST H.toHashing e params
  | .claimMessage message feeRecipient => s.claimMessage H.toHashing e message feeRecipient

def apply (tx : Tx D) : Except (Revert D) (LineaRollup D) :=
  match tx.call with
  | .secure action => s.secure tx.env action
  | .resetRateLimitAmount amount =>
    s.limit (s.limiter.resetRateLimitAmount s.security.roles tx.env.now tx.env.sender amount)
  | .resetAmountUsedInPeriod =>
    s.limit (s.limiter.resetAmountUsedInPeriod s.security.roles tx.env.sender)
  | .setVerifierAddress newVerifierAddress proofType =>
    s.setVerifierAddress tx.env newVerifierAddress proofType
  | .unsetVerifierAddress proofType => s.unsetVerifierAddress tx.env proofType
  | .setLivenessRecoveryOperator messageNumber rollingHash lastFinalizedTimestamp =>
    s.setLivenessRecoveryOperator H tx.env messageNumber rollingHash lastFinalizedTimestamp
  | .setYieldManager newYieldManager => s.setYieldManager tx.env newYieldManager
  | .transferFundsForNativeYield amount accepted =>
    s.transferFundsForNativeYield tx.env amount accepted
  | .fund => s.fund tx.env
  | .receiveEther => .ok { s with balance := s.balance + tx.env.value }
  | .sendMessage destination fee data =>
    s.service (s.sendMessage H.toHashing tx.env destination fee data)
  | .reportNativeYield amount l2YieldRecipient =>
    s.reportNativeYield H tx.env amount l2YieldRecipient
  | .submitBlobs precompile blobs blobSubmissions parentShnarf finalBlobShnarf =>
    s.submitBlobs H tx.env precompile blobs blobSubmissions parentShnarf finalBlobShnarf
  | .finalizeBlocks f aggregatedProof proofType data =>
    s.finalizeBlocks H tx.env f aggregatedProof proofType data
  | .claim claim => s.service (s.beginClaim H tx.env claim)
  | .finishClaim f => s.service (s.toL1MessageService.finishClaim f)

end LineaRollup

end StatusNetwork.Rollup
