import StatusNetwork.Rollup.Claims
import StatusNetwork.Yield.NativeYield

/-!
# The principal of the users is protected

The ETH of both contracts and the funds with the yield providers cover the messages sent that were
not claimed. The funds are summed over the registered providers, each of which counts once.
-/

namespace StatusNetwork.Yield.NativeYield

open Messaging (Claim ClaimMessageWithProofParams L1MessageService)
open Rollup (LineaRollup Hashing)

variable {D : Type} {s s' : NativeYield D}

-- The reserve

/-- The fee that the claim in flight still has to pay. -/
def due (r : LineaRollup D) : Nat := (r.inFlight.map (·.claim.fee)).getD 0

/-- What a call does to the reserve, which also has to pay what is due. -/
structure Covers (r r' : LineaRollup D) (log : List Event) : Prop where
  covered : sentTotal log + r.balance + due r' ≤ r'.balance + claimedTotal log + due r
  flight : r.isWithdrawLSTAllowed = false → r'.isWithdrawLSTAllowed = false

theorem Covers.of_le (hbalance : r.balance ≤ r'.balance) (hflight : r'.inFlight = r.inFlight) :
    Covers r r' [] := by
  constructor
  · simp only [due, hflight, sentTotal, claimedTotal, List.map_nil, List.sum_nil]
    omega
  · simp only [LineaRollup.isWithdrawLSTAllowed, hflight]
    exact id

theorem fee_le (c : Claim D) : c.fee ≤ c.message.fee := by
  cases c with
  | claimMessageWithProofAndWithdrawLST => exact Nat.zero_le _
  | _ => exact le_rfl

theorem Covers.claim (hnone : r.inFlight = none) (hvalue : c.message.value ≤ r.balance)
    (hbalance : r'.balance = r.balance - c.message.value) (hflight : r'.inFlight = some ⟨sender, c⟩)
    (hkind : r'.isWithdrawLSTAllowed = false) : Covers r r' [.claimed c.message] := by
  refine ⟨?_, fun _ => hkind⟩
  have hfee := fee_le c
  simp only [due, hnone, hflight, hbalance, sentTotal, claimedTotal, List.map_cons, List.map_nil,
    List.sum_cons, List.sum_nil, Option.map_some, Option.map_none, Option.getD_some,
    Option.getD_none]
  omega

theorem sentTotal_append (log more : List Event) :
    sentTotal (log ++ more) = sentTotal log + sentTotal more := by simp [sentTotal]

variable [DecidableEq D] [Zero D] {H : Hashing D}

theorem apply_covers (hallowed : s.Allowed (.rollup tx)) (h : s.rollup.apply H tx = .ok r) :
    Covers s.rollup r (s.events (.rollup tx)) := by
  obtain ⟨env, call⟩ := tx
  cases call with
  | secure | setVerifierAddress =>
    simp only [LineaRollup.apply, LineaRollup.secure, LineaRollup.setVerifierAddress,
      bind_eq_ok] at h
    obtain ⟨-, -, _, -, ⟨⟩⟩ := h
    exact .of_le le_rfl rfl
  | resetRateLimitAmount | resetAmountUsedInPeriod =>
    simp only [LineaRollup.apply, LineaRollup.limit, map_eq_ok] at h
    obtain ⟨_, -, rfl⟩ := h
    exact .of_le le_rfl rfl
  | unsetVerifierAddress =>
    simp only [LineaRollup.apply, LineaRollup.unsetVerifierAddress, bind_eq_ok] at h
    obtain ⟨-, -, ⟨⟩⟩ := h
    exact .of_le le_rfl rfl
  | setLivenessRecoveryOperator =>
    simp only [LineaRollup.apply, LineaRollup.setLivenessRecoveryOperator, bind_eq_ok] at h
    obtain ⟨_, -, -, -, -, -, ⟨⟩⟩ := h
    exact .of_le le_rfl rfl
  | setYieldManager | transferFundsForNativeYield => exact hallowed.elim
  | fund =>
    simp only [LineaRollup.apply, LineaRollup.fund, bind_eq_ok] at h
    obtain ⟨-, -, ⟨⟩⟩ := h
    exact .of_le (Nat.le_add_right _ _) rfl
  | receiveEther =>
    cases h
    exact .of_le (Nat.le_add_right _ _) rfl
  | sendMessage destination fee data =>
    obtain ⟨_, hsend, rfl⟩ := LineaRollup.service_ok h
    obtain ⟨hfee, _, hadd, rfl⟩ := L1MessageService.sendMessage_ok hsend
    obtain rfl := L1MessageService.addMessage_ok hadd
    refine ⟨?_, id⟩
    have hvalue : env.value - fee + fee = env.value := Nat.sub_add_cancel hfee
    simp [events, sentTotal, claimedTotal, due, L1MessageService.sentMessage, hvalue]
    omega
  | reportNativeYield =>
    simp only [LineaRollup.apply, LineaRollup.reportNativeYield, bind_eq_ok,
      failIf_eq_ok, not_not] at h
    obtain ⟨-, -, -, hsender, -⟩ := h
    exact absurd hsender hallowed
  | submitBlobs precompile blobs blobSubmissions parentShnarf finalBlobShnarf =>
    simp only [LineaRollup.apply, LineaRollup.submitBlobs, LineaRollup.acceptShnarfData,
      bind_eq_ok, Except.ok.injEq] at h
    obtain ⟨-, -, -, -, -, -, -, -, _, -, _, ⟨-, -, -, -, rfl⟩, -, -, rfl⟩ := h
    exact .of_le le_rfl rfl
  | finalizeBlocks f aggregatedProof proofType data =>
    simp only [LineaRollup.apply, LineaRollup.finalizeBlocks, LineaRollup.applyFinalization,
      bind_eq_ok, Except.ok.injEq] at h
    obtain ⟨-, -, -, -, -, -, -, -, -, -, _, ⟨-, -, -, -, -, -, -, -, -, -, _, -, -, -, rfl⟩, -, -,
      rfl⟩ := h
    exact .of_le le_rfl rfl
  | claim claim =>
    obtain ⟨_, hclaim, rfl⟩ := LineaRollup.service_ok h
    cases claim with
    | claimMessageWithProof params =>
      obtain ⟨hnone, -, hbalance, _, rfl⟩ := L1MessageService.claimMessageWithProof_ok hclaim
      exact .claim hnone hbalance rfl rfl rfl
    | claimMessageWithProofAndWithdrawLST => exact hallowed.elim
    | claimMessage message feeRecipient =>
      obtain ⟨hnone, hvalue, hbalance, hflight⟩ := L1MessageService.claimMessage_calls hclaim
      exact .claim hnone hvalue hbalance hflight
        (by simp [LineaRollup.isWithdrawLSTAllowed, hflight])
  | finishClaim f =>
    obtain ⟨_, hfinish, rfl⟩ := LineaRollup.service_ok h
    obtain ⟨flight, _, hflight, ⟨paid, hpaid, hbalance, rfl⟩, rfl⟩ :=
      L1MessageService.finishClaim_ok hfinish
    refine ⟨?_, fun _ => rfl⟩
    simp [events, sentTotal, claimedTotal, due, hflight]
    omega

-- Invariant

theorem claimedTotal_append (log more : List Event) :
    claimedTotal (log ++ more) = claimedTotal log + claimedTotal more := by simp [claimedTotal]

structure Invariant (s : NativeYield D) (log : List Event) : Prop where
  balanced : s.manager.books.Balanced 0
  flight : s.rollup.isWithdrawLSTAllowed = false
  covered : sentTotal log + due s.rollup ≤
    s.rollup.balance + s.manager.books.worth + claimedTotal log

omit [DecidableEq D] [Zero D] in
theorem Invariant.move (h : Invariant s log) (hmoves : s.manager.Moves s'.manager gained lost)
    (hflight : s'.rollup.isWithdrawLSTAllowed = false)
    (hcovered : sentTotal more + s.rollup.balance + lost + due s'.rollup ≤
      s'.rollup.balance + gained + claimedTotal more + due s.rollup) :
    Invariant s' (log ++ more) := by
  refine ⟨hmoves.balanced h.balanced, hflight, ?_⟩
  have hbefore := h.covered
  have hworth := hmoves.worth_eq
  rw [sentTotal_append, claimedTotal_append]
  omega

theorem Invariant.step (h : Invariant s log) (hstep : s.Step H a s') :
    Invariant s' (log ++ s.events a) := by
  obtain ⟨hallowed, happly⟩ := hstep
  cases a with
  | rollup tx =>
    simp only [apply, bind_eq_ok] at happly
    obtain ⟨r, hcall, ⟨⟩⟩ := happly
    have hcovers := apply_covers hallowed (callRollup_ok hcall)
    refine h.move (.refl 0 _) (hcovers.flight h.flight) ?_
    simpa using hcovers.covered
  | manager e p call =>
    simp only [apply, bind_eq_ok, mapError_eq_ok, h.flight] at happly
    obtain ⟨⟨manager, funded⟩, hcall, r, hfund, ⟨⟩⟩ := happly
    obtain ⟨gained, hmoves⟩ := YieldManager.call_moves hallowed hcall
    obtain rfl := fund_ok hfund
    refine h.move hmoves h.flight ?_
    simp only [events, due, sentTotal, claimedTotal, List.map_nil, List.sum_nil]
    omega
  | transferFundsForNativeYield e amount =>
    simp only [apply, bind_eq_ok, mapError_eq_ok] at happly
    obtain ⟨r, hcall, manager, hreceive, ⟨⟩⟩ := happly
    obtain ⟨hbalance, rfl⟩ := transferFunds_ok hcall
    refine h.move (YieldManager.receiveFundsFromReserve_moves hreceive) h.flight ?_
    simp only [events, due, sentTotal, claimedTotal, List.map_nil, List.sum_nil]
    omega
  | reportYield e p yieldProvider l2YieldRecipient =>
    simp only [apply, bind_eq_ok, mapError_eq_ok] at happly
    obtain ⟨⟨manager, newReportedYield⟩, hreport, r, hcall, ⟨⟩⟩ := happly
    obtain ⟨rfl, hmoves⟩ := YieldManager.reportYield_moves hreport
    have hcall := callRollup_ok hcall
    simp only [LineaRollup.apply, LineaRollup.reportNativeYield, bind_eq_ok] at hcall
    obtain ⟨-, -, -, -, -, -, hservice⟩ := hcall
    obtain ⟨_, hadd, rfl⟩ := LineaRollup.service_ok hservice
    obtain rfl := L1MessageService.addMessage_ok hadd
    refine h.move hmoves h.flight ?_
    simp [events, due, sentTotal, claimedTotal, LineaRollup.yieldMessage]
    omega
  | claimMessageWithProofAndWithdrawLST e p f params yieldProvider =>
    simp only [apply, bind_eq_ok, mapError_eq_ok] at happly
    obtain ⟨r, hbegin, manager, hwithdraw, r', hfinish, ⟨⟩⟩ := happly
    obtain ⟨_, hclaim, rfl⟩ := LineaRollup.service_ok (callRollup_ok hbegin)
    obtain ⟨hnone, -, _, rfl⟩ := L1MessageService.claimMessageWithProofAndWithdrawLST_ok hclaim
    obtain ⟨_, hdone, rfl⟩ := LineaRollup.service_ok (callRollup_ok hfinish)
    -- the claim in flight pays no fee
    obtain ⟨_, _, ⟨⟩, ⟨paid, hpaid, -, rfl⟩, rfl⟩ := L1MessageService.finishClaim_ok hdone
    obtain rfl : paid = 0 := Nat.le_zero.mp hpaid
    refine h.move (YieldManager.withdrawLST_moves hwithdraw) rfl ?_
    simp [events, due, sentTotal, claimedTotal, hnone, ClaimMessageWithProofParams.message]

theorem Initial.invariant (h : Initial H s) : Invariant s [] := by
  obtain ⟨⟨_, _, _, _, _, _, hrollup⟩, _, _, hmanager⟩ := h
  simp only [LineaRollup.initialized, bind_eq_ok, Except.ok.injEq] at hrollup
  obtain ⟨-, -, _, -, -, -, _, -, -, -, -, -, hs⟩ := hrollup
  have hnone : s.rollup.inFlight = none := by rw [← hs]
  refine ⟨YieldManager.initialized_balanced hmanager, ?_, ?_⟩
  · simp [LineaRollup.isWithdrawLSTAllowed, hnone]
  · simp [due, hnone, sentTotal]

theorem Run.invariant (h : Run H s now log) : Invariant s log :=
  Runs.Logged.invariant (I := fun s _ log => Invariant s log) (fun _ _ => Initial.invariant)
    (fun _ _ _ _ _ hinv _ hstep => hinv.step hstep) h

/-- The total is the sum over the registered providers, and together with the ETH of both contracts
it covers what was sent and not claimed. -/
theorem principal_protected (h : Run H s now log) :
    (s.manager.yieldProviders.tail.Nodup ∧
      ∀ a, a ∈ s.manager.yieldProviders.tail ↔ s.manager.isYieldProviderKnown a) ∧
    s.manager.userFundsInYieldProvidersTotal =
      (s.manager.yieldProviders.tail.map fun a =>
        (s.manager.yieldProviderStorage a).userFunds).sum ∧
    sentTotal log ≤ s.rollup.balance + s.manager.balance +
      s.manager.userFundsInYieldProvidersTotal + claimedTotal log := by
  have hinv := Run.invariant h
  have hindexed := hinv.balanced.indexed
  refine ⟨⟨hindexed.nodup.tail, fun a => hindexed.mem_tail_iff⟩, hinv.balanced.total_eq, ?_⟩
  have hcovered := hinv.covered
  simp only [Books.worth, YieldManager.books] at hcovered
  omega

-- A run

def rollupDeployment : Rollup.BaseInitializationData Rollup.Word :=
  { Rollup.deployment with
    roleAddresses := [(Rollup.OPERATOR_ROLE, 2), (Rollup.YIELD_PROVIDER_STAKING_ROLE, 2)] }

def managerDeployment : YieldManagerInitializationData where
  minimumWithdrawalReservePercentageBps := 1000
  targetWithdrawalReservePercentageBps := 2000
  minimumWithdrawalReserveAmount := 0
  targetWithdrawalReserveAmount := 1
  pauseTypeRoles := []
  unpauseTypeRoles := []
  roleAddresses := [(YIELD_PROVIDER_STAKING_ROLE, 2), (YIELD_REPORTER_ROLE, 2),
    (SET_YIELD_PROVIDER_ROLE, 2)]
  initialL2YieldRecipients := [6]
  defaultAdmin := 1

def deployed : NativeYield Rollup.Word where
  rollup :=
    (LineaRollup.initialized Rollup.symbolic 7 0 0 rollupDeployment 1 10).toOption.get rfl
  manager := (YieldManager.initialized 10 7 0 managerDeployment).toOption.get rfl

theorem deployed_initial : Initial Rollup.symbolic deployed :=
  ⟨⟨7, 0, 0, rollupDeployment, 1, 10, rfl⟩, 0, managerDeployment, rfl⟩

def sampleProvider : ProviderEnv where
  succeeds _ := true
  lstLiabilityPrincipal _ := 0
  withdrawableValue := 0
  newReportedYield := 3
  outstandingNegativeYield := 0
  unstakedAmountWei := 0
  progressOssificationResult := .noop
  registrationData := ⟨.lidoStVault, 0, 0, 10⟩

def sampleActions : List (Action Rollup.Word) :=
  [.rollup ⟨⟨4, 40, 1, by decide⟩, .sendMessage 5 2 []⟩,
    .transferFundsForNativeYield ⟨2, 0, 1, by decide⟩ 36,
    .manager ⟨2, 0, 1, by decide⟩ sampleProvider (.addYieldProvider 9),
    .manager ⟨2, 0, 1, by decide⟩ sampleProvider (.fundYieldProvider 9 20),
    .reportYield ⟨2, 0, 1, by decide⟩ sampleProvider 9 6,
    .rollup ⟨⟨2, 0, 2, by decide⟩, .finalizeBlocks ⟨fun _ => 0, 0, fun _ _ _ => .returned true⟩
      [0] 0 LineaRollup.sampleFinalization⟩,
    .claimMessageWithProofAndWithdrawLST ⟨8, 0, 3, by decide⟩ sampleProvider
      ⟨0, 0, true, fun _ _ => true⟩ LineaRollup.sampleParams 9]

theorem principal_protected_after_lst_claim : ∃ s log, Run Rollup.symbolic s 3 log ∧
    (s.rollup.balance, s.manager.balance, s.manager.userFundsInYieldProvidersTotal) = (4, 6, 28) ∧
    (sentTotal log, claimedTotal log) = (43, 7) ∧
    sentTotal log ≤ s.rollup.balance + s.manager.balance +
      s.manager.userFundsInYieldProvidersTotal + claimedTotal log := by
  obtain ⟨s, log, hrun, hobserved⟩ : ∃ s log, Run Rollup.symbolic s 3 log ∧
      ((s.rollup.balance, s.manager.balance, s.manager.userFundsInYieldProvidersTotal),
        sentTotal log, claimedTotal log) = ((4, 6, 28), 43, 7) := Runs.exists_logged
    (fun s a => if s.Allowed a then s.apply Rollup.symbolic a
      else .error (.manager .unknownYieldProvider))
    (fun s a s' hs => by
      split at hs
      · rename_i hallowed
        exact ⟨hallowed, hs⟩
      · cases hs) 0 deployed_initial
    sampleActions
    (fun s log => ((s.rollup.balance, s.manager.balance,
      s.manager.userFundsInYieldProvidersTotal), sentTotal log, claimedTotal log))
    (by decide +kernel)
  simp only [Prod.mk.injEq] at hobserved
  exact ⟨s, log, hrun, by simp [hobserved], by simp [hobserved], (principal_protected hrun).2.2⟩

end StatusNetwork.Yield.NativeYield
