import StatusNetwork.Rollup.Effects
import StatusNetwork.Yield.YieldManagerLaws

/-!
# The native yield system

The rollup contract, whose ETH is the withdrawal reserve, and the yield manager. A call of one
contract that calls the other one is a single action; a claim may be interrupted by any action
between its two steps. The log has the messages that are sent and claimed.
-/

namespace StatusNetwork

namespace Messaging

def Claim.message : Claim D → Message
  | .claimMessageWithProof params => params.message
  | .claimMessageWithProofAndWithdrawLST params => params.message
  | .claimMessage message _ => message

end Messaging

namespace Yield

open Security (Address)
open Messaging (Message Env ClaimMessageWithProofParams)
open Messaging.L1MessageService (FeeEnv)
open Rollup (LineaRollup Hashing)

structure NativeYield (D : Type) where
  rollup : LineaRollup D
  manager : YieldManager

namespace NativeYield

variable {D : Type} [DecidableEq D] [Zero D]

inductive Revert (D : Type)
  | rollup (e : Rollup.Revert D)
  | manager (e : Yield.Revert)
  deriving DecidableEq

inductive Action (D : Type) [Zero D]
  | rollup (tx : LineaRollup.Tx D)
  | manager (e : Env) (p : ProviderEnv) (call : YieldManager.Call)
  | transferFundsForNativeYield (e : Env) (amount : Nat)
  | reportYield (e : Env) (p : ProviderEnv) (yieldProvider l2YieldRecipient : Address)
  | claimMessageWithProofAndWithdrawLST (e : Env) (p : ProviderEnv) (f : FeeEnv)
      (params : ClaimMessageWithProofParams D) (yieldProvider : Address)

def Action.now : Action D → Nat
  | .rollup tx => tx.env.now
  | .manager e _ _ | .transferFundsForNativeYield e _ | .reportYield e _ _ _
  | .claimMessageWithProofAndWithdrawLST e _ _ _ _ => e.now

variable (H : Hashing D) (s : NativeYield D)

def callRollup (tx : LineaRollup.Tx D) : Except (Revert D) (LineaRollup D) :=
  (s.rollup.apply H tx).mapError .rollup

def apply : Action D → Except (Revert D) (NativeYield D)
  | .rollup tx => do
    let rollup ← s.callRollup H tx
    .ok { s with rollup }
  | .manager e p call => do
    let (manager, funded) ← (s.manager.call s.rollup.balance e p s.rollup.isWithdrawLSTAllowed
      call).mapError .manager
    let e := { e with sender := manager.self, value := funded }
    let rollup ← (if funded = 0 then .ok s.rollup else s.callRollup H ⟨e, .fund⟩)
    .ok { rollup, manager }
  | .transferFundsForNativeYield e amount => do
    let rollup ← s.callRollup H ⟨e, .transferFundsForNativeYield amount true⟩
    let e := { e with sender := rollup.self, value := amount }
    let manager ← (s.manager.receiveFundsFromReserve rollup.balance e).mapError .manager
    .ok { rollup, manager }
  | .reportYield e p yieldProvider l2YieldRecipient => do
    let (manager, newReportedYield) ←
      (s.manager.reportYield e p yieldProvider l2YieldRecipient).mapError .manager
    let e := { e with sender := manager.self, value := 0 }
    let rollup ← s.callRollup H ⟨e, .reportNativeYield newReportedYield l2YieldRecipient⟩
    .ok { rollup, manager }
  | .claimMessageWithProofAndWithdrawLST e p f params yieldProvider => do
    let rollup ← s.callRollup H ⟨e, .claim (.claimMessageWithProofAndWithdrawLST params)⟩
    let call := { e with sender := rollup.self, value := 0 }
    let manager ← (s.manager.withdrawLST call p rollup.isWithdrawLSTAllowed yieldProvider
      params.value).mapError .manager
    let rollup ← callRollup H { s with rollup } ⟨e, .finishClaim f⟩
    .ok { rollup, manager }

variable {H s} in
theorem callRollup_ok (h : s.callRollup H tx = .ok r) : s.rollup.apply H tx = .ok r := by
  simpa [callRollup] using h

variable {H s} in
theorem fund_ok {e : Env} (h : (if funded = 0 then .ok s.rollup
    else s.callRollup H ⟨{ e with sender, value := funded }, .fund⟩) = .ok r) :
    r = { s.rollup with balance := s.rollup.balance + funded } := by
  split at h
  · rename_i hzero
    cases h
    simp [hzero]
  · have hfund := callRollup_ok h
    simp only [LineaRollup.apply, LineaRollup.fund, bind_eq_ok] at hfund
    obtain ⟨-, -, ⟨⟩⟩ := hfund
    rfl

variable {H s} in
theorem transferFunds_ok
    (h : s.callRollup H ⟨e, .transferFundsForNativeYield amount true⟩ = .ok r) :
    amount ≤ s.rollup.balance ∧ r = { s.rollup with balance := s.rollup.balance - amount } := by
  have htransfer := callRollup_ok h
  simp only [LineaRollup.apply, LineaRollup.transferFundsForNativeYield, bind_eq_ok,
    failIf_eq_ok, not_or, Nat.not_lt] at htransfer
  obtain ⟨-, -, -, -, -, ⟨hbalance, -⟩, ⟨⟩⟩ := htransfer
  exact ⟨hbalance, rfl⟩

/-- The yield manager stays what it is, it reports yield only with `reportYield`, and a call that
goes on to the other contract is the action for it. -/
def Allowed : Action D → Prop
  | .rollup tx =>
    match tx.call with
    | .setYieldManager _ | .transferFundsForNativeYield _ _
    | .claim (.claimMessageWithProofAndWithdrawLST _) => False
    | .reportNativeYield _ _ => tx.env.sender ≠ s.rollup.yieldManager
    | _ => True
  | .manager _ _ call => s.manager.Routine call
  | _ => True

instance (a : Action D) : Decidable (s.Allowed a) := by
  unfold Allowed
  split
  · split <;> infer_instance
  all_goals
    infer_instance

def Step (a : Action D) (s' : NativeYield D) : Prop := s.Allowed a ∧ s.apply H a = .ok s'

def Initial (s : NativeYield D) : Prop :=
  s.rollup.Initial H ∧ ∃ balance data,
    YieldManager.initialized s.rollup.yieldManager s.rollup.self balance data = .ok s.manager

-- Messages

inductive Event
  | sent (message : Message)
  | claimed (message : Message)

/-- A message is claimed when it is marked so, before its recipient is called. -/
def events : Action D → List Event
  | .rollup tx =>
    match tx.call with
    | .sendMessage destination fee data =>
      [.sent (s.rollup.sentMessage tx.env destination fee data)]
    | .reportNativeYield amount l2YieldRecipient =>
      [.sent (s.rollup.yieldMessage amount l2YieldRecipient)]
    | .claim claim => [.claimed claim.message]
    | _ => []
  | .reportYield _ p _ l2YieldRecipient =>
    [.sent (s.rollup.yieldMessage p.newReportedYield l2YieldRecipient)]
  | .claimMessageWithProofAndWithdrawLST _ _ _ params _ => [.claimed params.message]
  | _ => []

abbrev Run : NativeYield D → (now : Nat) → List Event → Prop :=
  Runs.Logged Action.now (Initial H) (fun s a s' => s.Step H a s') (fun s a _ => s.events a)

def sentTotal (log : List Event) : Nat :=
  (log.map fun
    | .sent message => message.value + message.fee
    | .claimed _ => 0).sum

def claimedTotal (log : List Event) : Nat :=
  (log.map fun
    | .sent _ => 0
    | .claimed message => message.value + message.fee).sum

end NativeYield

end Yield

end StatusNetwork
