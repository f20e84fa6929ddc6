import StatusNetwork.Messaging.L1MessageServiceLaws
import StatusNetwork.Rollup.LineaRollup

/-!
# What the calls of the rollup contract do

Runs of the contract, with a log of the messages it sent, the data submitted to it, its
finalizations and the claims it paid. `Effect` says once what a call can do.
-/

namespace StatusNetwork.Messaging

variable {D : Type}

def Claim.params? : Claim D → Option (ClaimMessageWithProofParams D)
  | .claimMessageWithProof params => some params
  | .claimMessageWithProofAndWithdrawLST params => some params
  | .claimMessage _ _ => none

/-- The ETH that the external call of a claim takes along. -/
def Claim.callValue : Claim D → Nat
  | .claimMessageWithProof params => params.value
  | .claimMessageWithProofAndWithdrawLST _ => 0
  | .claimMessage message _ => message.value

end StatusNetwork.Messaging

namespace StatusNetwork.Rollup

open Security (Address Pausing RateLimiter)
open Messaging (Message Claim ClaimMessageWithProofParams InFlight L1MessageService)

/-- A call of `submitBlobs` with the blobs of its transaction. -/
structure Submission (D : Type) [Zero D] where
  precompile : Precompile D
  blobs : Blobs D
  blobSubmissions : List (BlobSubmission D)
  parentShnarf : D
  finalBlobShnarf : D

inductive Event (D : Type) [Zero D]
  | sent (message : Message)
  | submitted (submission : Submission D)
  | finalized (data : FinalizationDataV3 D)
  /-- A claim, and the ETH it moved out of the contract. -/
  | claimed (claim : Claim D) (moved : Nat)

namespace LineaRollup

variable {D : Type} [DecidableEq D] [Zero D] (H : Hashing D)

def events (s : LineaRollup D) (tx : Tx D) (s' : LineaRollup D) : List (Event D) :=
  match tx.call with
  | .sendMessage destination fee data => [.sent (s.sentMessage tx.env destination fee data)]
  | .reportNativeYield amount l2YieldRecipient => [.sent (s.yieldMessage amount l2YieldRecipient)]
  | .submitBlobs precompile blobs blobSubmissions parentShnarf finalBlobShnarf =>
    [.submitted ⟨precompile, blobs, blobSubmissions, parentShnarf, finalBlobShnarf⟩]
  | .finalizeBlocks _ _ _ data => [.finalized data]
  | .finishClaim _ =>
    match s.inFlight with
    | some flight => [.claimed flight.claim (flight.claim.callValue + (s.balance - s'.balance))]
    | none => []
  | _ => []

def Initial (s : LineaRollup D) : Prop :=
  ∃ self balance now data livenessRecoveryOperator yieldManager,
    initialized H self balance now data livenessRecoveryOperator yieldManager = .ok s

def RunFrom (init : LineaRollup D → Prop) : LineaRollup D → (now : Nat) → List (Event D) → Prop :=
  Runs.Logged (fun tx : Tx D => tx.env.now) init (fun s tx s' => s.apply H tx = .ok s') events

def Run : LineaRollup D → (now : Nat) → List (Event D) → Prop := RunFrom H (Initial H)

/-- The shnarf that the blobs of a submission lead to, one after the other. -/
def computedShnarf (submission : Submission D) : Except (Revert D) D :=
  submission.blobSubmissions.zipIdx.foldlM (fun computedShnarf (blob, index) =>
    submitBlob H submission.precompile submission.blobs computedShnarf blob index)
    submission.parentShnarf

/-- What a call does to the messages, the data and the state of the rollup. -/
inductive Effect (s : LineaRollup D) (tx : Tx D) (s' : LineaRollup D) : Prop
  /-- Only settings and ETH change. -/
  | settles (security : Pausing) (limiter : RateLimiter) (balance : Nat)
      (verifiers : Nat → Address) (yieldManager : Address) (hlog : events s tx s' = [])
      (hs : s' = { s with security, limiter, balance, verifiers, yieldManager })
  | sends (message : Message) (balance : Nat) (hlog : events s tx s' = [.sent message])
      (hnumber : message.messageNumber = s.nextMessageNumber)
      (hs : s' = { s with
        toL1MessageManager :=
          s.addRollingHash H.toHashing message.messageNumber (H.hashMessage message)
        balance := balance
        nextMessageNumber := s.nextMessageNumber + 1 })
  | submits (submission : Submission D) (hlog : events s tx s' = [.submitted submission])
      (hcovers : submission.blobs.blobhash submission.blobSubmissions.length = 0)
      (hsome : submission.blobSubmissions ≠ [])
      (hshnarf : computedShnarf H submission = .ok submission.finalBlobShnarf)
      (hparent : s.blobShnarfExists submission.parentShnarf ≠ 0)
      (hfresh : s.blobShnarfExists submission.finalBlobShnarf = 0)
      (hs : s' = { s with
        blobShnarfExists := Function.update s.blobShnarfExists submission.finalBlobShnarf
          SHNARF_EXISTS_DEFAULT_VALUE })
  | finalizes (data : FinalizationDataV3 D) (f : FinalizationEnv D) (depths : D → Nat)
      (finalizedState : D) (hlog : events s tx s' = [.finalized data])
      (hdepths : ∀ root, depths root = s.l2MerkleRootsDepths root ∨
        root ∈ data.l2MerkleRoots ∧ depths root = data.l2MerkleTreesDepth)
      (hexists : s.providedShnarfExists f (finalShnarf H data) ≠ 0)
      (hs : s' = { s with
        l2MerkleRootsDepths := depths
        stateRootHashes := Function.update s.stateRootHashes data.endBlockNumber
          data.shnarfData.finalStateRootHash
        currentL2BlockNumber := data.endBlockNumber
        currentFinalizedShnarf := finalShnarf H data
        currentFinalizedState := finalizedState })
  /-- A claim begins and calls out. -/
  | claims (flight : InFlight D) (params : ClaimMessageWithProofParams D) (limiter : RateLimiter)
      (balance : Nat) (hlog : events s tx s' = []) (hidle : s.inFlight = none)
      (hparams : flight.claim.params? = some params)
      (hproves : L1MessageService.Proves H.toHashing s.toL1MessageService params)
      (hbalance : balance + flight.claim.callValue = s.balance)
      (hs : s' = { s with
        messageClaimed := Function.update s.messageClaimed params.messageNumber true
        limiter := limiter
        balance := balance
        inFlight := some flight })
  | finishes (flight : InFlight D) (paid : Nat)
      (hlog : events s tx s' = [.claimed flight.claim (flight.claim.callValue + paid)])
      (hflight : s.inFlight = some flight) (hpaid : paid ≤ flight.claim.fee)
      (hbalance : paid ≤ s.balance)
      (hs : s' = { s with balance := s.balance - paid, inFlight := none })

variable {H} {s s' : LineaRollup D} {tx : Tx D}

omit [DecidableEq D] [Zero D] in
theorem service_ok (h : s.service result = .ok s') :
    ∃ service, result = .ok service ∧ s' = { s with toL1MessageService := service } := by
  simp only [service, map_eq_ok, mapError_eq_ok] at h
  obtain ⟨service, hok, rfl⟩ := h
  exact ⟨service, hok, rfl⟩

theorem submitBlobs_effect (submission : Submission D)
    (hcall : tx.call = .submitBlobs submission.precompile submission.blobs
      submission.blobSubmissions submission.parentShnarf submission.finalBlobShnarf)
    (h : s.submitBlobs H tx.env submission.precompile submission.blobs submission.blobSubmissions
      submission.parentShnarf submission.finalBlobShnarf = .ok s') : Effect H s tx s' := by
  simp only [submitBlobs, acceptShnarfData, bind_eq_ok, failIf_eq_ok, Except.ok.injEq, not_not] at h
  obtain ⟨-, -, -, -, -, hsome, -, hcovers, computed, hloop, _, ⟨-, hparent, -, hfresh, rfl⟩, -,
    hfinal, rfl⟩ := h
  refine .submits submission ?_ hcovers (fun h => hsome (by simp [h])) ?_ hparent hfresh rfl
  · simp [events, hcall]
  · rw [computedShnarf, hloop, hfinal]

theorem finalizeBlocks_effect (hcall : tx.call = .finalizeBlocks f proof proofType data)
    (h : s.finalizeBlocks H tx.env f proof proofType data = .ok s') : Effect H s tx s' := by
  simp only [finalizeBlocks, applyFinalization, bind_eq_ok, failIf_eq_ok,
    Except.ok.injEq, mapError_eq_ok] at h
  obtain ⟨-, -, -, -, -, -, -, -, -, -, _, ⟨_, -, -, -, -, -, -, -, -, hexists, manager, hroots, -,
    -, rfl⟩, -, -, rfl⟩ := h
  obtain ⟨depths, rfl, hdepths⟩ := Messaging.addL2MerkleRoots_ok hroots
  exact .finalizes data f depths _ (by simp [events, hcall]) hdepths hexists rfl

/-- No message of the first version is received any more, so that none can be claimed. -/
def NoneReceived (s : LineaRollup D) : Prop :=
  ∀ messageHash, s.inboxL2L1MessageStatus messageHash = .unknown

theorem claim_effect (hnone : s.NoneReceived)
    (hcall : tx.call = .claim claim)
    (h : s.beginClaim H tx.env claim = .ok after)
    (hs : s' = { s with toL1MessageService := after }) : Effect H s tx s' := by
  have hlog : events s tx s' = [] := by simp [events, hcall]
  cases claim with
  | claimMessageWithProof params =>
    obtain ⟨hidle, hproves, hvalue, limiter, rfl⟩ := L1MessageService.claimMessageWithProof_ok h
    exact .claims ⟨tx.env.sender, .claimMessageWithProof params⟩ params limiter _ hlog hidle rfl
      hproves (Nat.sub_add_cancel hvalue) hs
  | claimMessageWithProofAndWithdrawLST params =>
    obtain ⟨hidle, hproves, limiter, rfl⟩ :=
      L1MessageService.claimMessageWithProofAndWithdrawLST_ok h
    exact .claims ⟨tx.env.sender, .claimMessageWithProofAndWithdrawLST params⟩ params limiter
      s.balance hlog hidle rfl hproves rfl hs
  | claimMessage message feeRecipient =>
    have hstatus := L1MessageService.claimMessage_ok h
    rw [hnone] at hstatus
    cases hstatus

theorem finishClaim_effect (hcall : tx.call = .finishClaim f)
    (h : s.toL1MessageService.finishClaim f = .ok after)
    (hs : s' = { s with toL1MessageService := after }) : Effect H s tx s' := by
  obtain ⟨flight, _, hflight, ⟨paid, hpaid, hbalance, rfl⟩, rfl⟩ :=
    L1MessageService.finishClaim_ok h
  refine .finishes flight paid ?_ hflight hpaid hbalance hs
  subst hs
  simp [events, hcall, hflight, Nat.sub_sub_self hbalance]

theorem apply_effect (hnone : s.NoneReceived) (h : s.apply H tx = .ok s') : Effect H s tx s' := by
  unfold apply at h
  generalize hcall : tx.call = call at h
  cases call with
  | secure action =>
    simp only [secure, bind_eq_ok] at h
    obtain ⟨-, -, security, -, ⟨⟩⟩ := h
    exact .settles security _ _ _ _ (by simp [events, hcall]) rfl
  | resetRateLimitAmount amount | resetAmountUsedInPeriod =>
    simp only [limit, map_eq_ok] at h
    obtain ⟨limiter, -, rfl⟩ := h
    exact .settles _ limiter _ _ _ (by simp [events, hcall]) rfl
  | unsetVerifierAddress | fund =>
    simp only [unsetVerifierAddress, fund, bind_eq_ok] at h
    obtain ⟨-, -, ⟨⟩⟩ := h
    exact .settles _ _ _ _ _ (by simp [events, hcall]) rfl
  | setVerifierAddress | setYieldManager =>
    simp only [setVerifierAddress, setYieldManager, bind_eq_ok] at h
    obtain ⟨-, -, -, -, ⟨⟩⟩ := h
    exact .settles _ _ _ _ _ (by simp [events, hcall]) rfl
  | setLivenessRecoveryOperator | transferFundsForNativeYield =>
    simp only [setLivenessRecoveryOperator, transferFundsForNativeYield, bind_eq_ok] at h
    obtain ⟨_, -, -, -, -, -, ⟨⟩⟩ := h
    exact .settles _ _ _ _ _ (by simp [events, hcall]) rfl
  | receiveEther =>
    simp only [Except.ok.injEq] at h
    exact .settles _ _ _ _ _ (by simp [events, hcall]) h.symm
  | sendMessage destination fee data =>
    obtain ⟨_, hsend, rfl⟩ := service_ok h
    obtain ⟨-, _, hadd, rfl⟩ := L1MessageService.sendMessage_ok hsend
    obtain rfl := L1MessageService.addMessage_ok hadd
    exact .sends _ _ (by simp [events, hcall]) rfl rfl
  | reportNativeYield amount l2YieldRecipient =>
    simp only [reportNativeYield, bind_eq_ok] at h
    obtain ⟨-, -, -, -, -, -, h⟩ := h
    obtain ⟨_, hadd, rfl⟩ := service_ok h
    obtain rfl := L1MessageService.addMessage_ok hadd
    exact .sends _ _ (by simp [events, hcall]) rfl rfl
  | submitBlobs precompile blobs blobSubmissions parentShnarf finalBlobShnarf =>
    exact submitBlobs_effect ⟨precompile, blobs, blobSubmissions, parentShnarf, finalBlobShnarf⟩
      hcall h
  | finalizeBlocks f aggregatedProof proofType data =>
    exact finalizeBlocks_effect hcall h
  | claim claim =>
    obtain ⟨_, hok, hs⟩ := service_ok h
    exact claim_effect hnone hcall hok hs
  | finishClaim f =>
    obtain ⟨_, hok, hs⟩ := service_ok h
    exact finishClaim_effect hcall hok hs

theorem Effect.noneReceived (h : Effect H s tx s') (hnone : s.NoneReceived) : s'.NoneReceived := by
  cases h with
  | settles _ _ _ _ _ _ hs | sends _ _ _ _ hs | submits _ _ _ _ _ _ _ hs
  | finalizes _ _ _ _ _ _ _ hs | claims _ _ _ _ _ _ _ _ _ hs | finishes _ _ _ _ _ _ hs =>
    subst hs
    exact hnone

theorem Initial.noneReceived (h : Initial H s) : s.NoneReceived := by
  obtain ⟨self, balance, now, data, livenessRecoveryOperator, yieldManager, h⟩ := h
  simp only [initialized, bind_eq_ok] at h
  obtain ⟨-, -, limiter, -, -, -, roles, -, -, -, -, -, ⟨⟩⟩ := h
  exact fun _ => rfl

/-- What holds at the start and is kept by every effect holds in every run. -/
theorem run_invariant {I : LineaRollup D → List (Event D) → Prop}
    (hinitial : ∀ s, init s → Initial H s) (hinit : ∀ s, init s → I s [])
    (hstep : ∀ s log tx s', I s log → Effect H s tx s' → I s' (log ++ events s tx s'))
    (h : RunFrom H init s now log) : I s log := by
  have hboth : s.NoneReceived ∧ I s log := by
    refine Runs.Logged.invariant (I := fun s _ log => s.NoneReceived ∧ I s log)
      (fun s _ hs => ⟨(hinitial s hs).noneReceived, hinit s hs⟩) ?_ h
    rintro s _ log tx s' ⟨hnone, hI⟩ - happly
    have heffect := apply_effect hnone happly
    exact ⟨heffect.noneReceived hnone, hstep s log tx s' hI heffect⟩
  exact hboth.2

end LineaRollup

-- Hashing without collisions

/-- Words as terms that say what they are the hash of. -/
inductive Word
  | zero
  | number (n : Nat)
  | keccak (left right : Word)
  | message (m : Message)
  | shnarf (parentShnarf snarkHash finalStateRootHash dataEvaluationPoint
      dataEvaluationClaim : Word)
  | finalizedState (messageNumber : Nat) (rollingHash : Word) (timestamp : Nat)
  deriving DecidableEq

instance : Zero Word := ⟨.zero⟩

def symbolic : Hashing Word where
  efficientKeccak := .keccak
  hashMessage := .message
  uint256 _ := 0
  bytes32 := .number
  computeShnarf := .shnarf
  computeLastFinalizedState := .finalizedState
  publicInputHash _ _ _ _ _ := 0

theorem symbolic_injective : Function.Injective2 symbolic.efficientKeccak :=
  fun _ _ _ _ h => Word.keccak.inj h

def deployment : BaseInitializationData Word where
  initialStateRootHash := .number 1
  initialL2BlockNumber := 0
  genesisTimestamp := 0
  defaultVerifier := 1
  rateLimitPeriodInSeconds := 100
  rateLimitAmountInWei := 1000
  roleAddresses := [(OPERATOR_ROLE, 2)]
  pauseTypeRoles := []
  unpauseTypeRoles := []
  defaultAdmin := 1
  shnarfProvider := 0

def deployed : LineaRollup Word :=
  (LineaRollup.initialized symbolic 7 100 0 deployment 1 1).toOption.get rfl

theorem deployed_initial : LineaRollup.Initial symbolic deployed :=
  ⟨7, 100, 0, deployment, 1, 1, rfl⟩

end StatusNetwork.Rollup
