import StatusNetwork.Reputation.Token

/-!
# Karma and its reward distributors

Models `SimpleKarmaDistributor.sol`, the stake manager as a reward distributor, and the
functions of `Karma.sol` that call the distributors.
-/

namespace StatusNetwork.Reputation

open Staking (Address Codehash StakeManager)

-- The simple distributor

structure SimpleKarmaDistributor where
  rewardsSupplier : Address
  availableSupply : Nat
  mintedSupply : Nat
  balances : Address → Nat
  hasRole : Role → Address → Bool

namespace SimpleKarmaDistributor

def initialized (owner : Address) : SimpleKarmaDistributor where
  rewardsSupplier := 0
  availableSupply := 0
  mintedSupply := 0
  balances _ := 0
  hasRole role account := role = .defaultAdmin ∧ account = owner

variable (s : SimpleKarmaDistributor)

def setRewardsSupplier (sender rewardsSupplier : Address) :
    Except Revert SimpleKarmaDistributor := do
  failIf (s.hasRole .defaultAdmin sender = false) .missingRole
  failIf (rewardsSupplier = 0) (.simpleKarmaDistributor .invalidAddress)
  .ok { s with rewardsSupplier }

def setRole (sender : Address) (role : Role) (account : Address) (granted : Bool) :
    Except Revert SimpleKarmaDistributor := do
  failIf (s.hasRole .defaultAdmin sender = false) .missingRole
  .ok { s with
    hasRole := Function.update s.hasRole role (Function.update (s.hasRole role) account granted) }

def setReward (sender : Address) (amount : Nat) : Except Revert SimpleKarmaDistributor := do
  failIf (sender ≠ s.rewardsSupplier) (.simpleKarmaDistributor .unauthorized)
  failIf (amount = 0) (.simpleKarmaDistributor .amountCannotBeZero)
  let availableSupply ← add s.availableSupply amount
  .ok { s with availableSupply }

def mint (sender account : Address) (amount : Nat) : Except Revert SimpleKarmaDistributor := do
  failIf (s.hasRole .defaultAdmin sender = false ∧ s.hasRole .operator sender = false)
    (.simpleKarmaDistributor .unauthorized)
  failIf (account = 0) (.simpleKarmaDistributor .invalidAddress)
  failIf (amount = 0) (.simpleKarmaDistributor .amountCannotBeZero)
  failIf (s.availableSupply < amount) (.simpleKarmaDistributor .insufficientAvailableSupply)
  let balance ← add (s.balances account) amount
  let mintedSupply ← add s.mintedSupply amount
  let availableSupply ← sub s.availableSupply amount
  .ok { s with balances := Function.update s.balances account balance, mintedSupply,
               availableSupply }

/-- The state before the transfer of what is redeemed, if that is anything. -/
def redeemRewards (account : Address) : Except Revert (SimpleKarmaDistributor × Option Nat) :=
  let amount := s.balances account
  if amount = 0 then .ok (s, none)
  else do
    let mintedSupply ← sub s.mintedSupply amount
    .ok ({ s with balances := Function.update s.balances account 0, mintedSupply }, some amount)

end SimpleKarmaDistributor

-- Distributors

inductive Distributor
  | stakeManager (s : StakeManager)
  | simple (s : SimpleKarmaDistributor)

namespace Distributor

def isPaused : Distributor → Bool
  | .stakeManager s => s.isPaused
  | .simple _ => false

def totalRewardsSupply (now : Nat) : Distributor → Except Revert Nat
  | .stakeManager s => (s.totalRewardsSupply now).mapError .stakeManager
  | .simple s => .ok s.mintedSupply

def rewardsBalanceOfAccount (now : Nat) (account : Address) : Distributor → Except Revert Nat
  | .stakeManager s => (s.rewardsBalanceOfAccount now account).mapError .stakeManager
  | .simple s => .ok (s.balances account)

/-- The functions of every distributor, and those of each kind. -/
inductive Call
  | setReward (amount duration : Nat)
  | redeemRewards (account : Address)
  /-- The codehash is the sender's. -/
  | stakeManager (codehash : Codehash) (call : StakeManager.Call)
  | setRewardsSupplier (rewardsSupplier : Address)
  | setRole (role : Role) (account : Address) (granted : Bool)
  | mint (account : Address) (amount : Nat)

/-- A transfer of Karma a call makes at its end. -/
structure Payment where
  account : Address
  amount : Nat

/-- The stake manager transfers also when there is nothing to redeem. -/
def callStakeManager (s : StakeManager) (msg : Staking.Msg) (c : StakeManager.Call) :
    Except Revert (Distributor × Option Payment) := do
  let (s, returned) ← (s.call msg c).mapError .stakeManager
  match c with
  | .redeemRewards account => .ok (.stakeManager s, some ⟨account, returned⟩)
  | _ => .ok (.stakeManager s, none)

def callSimple (s : SimpleKarmaDistributor) (sender : Address) :
    Call → Except Revert (Distributor × Option Payment)
  | .setReward amount _ => (s.setReward sender amount).map (.simple ·, none)
  | .redeemRewards account =>
    (s.redeemRewards account).map fun p => (.simple p.1, p.2.map (⟨account, ·⟩))
  | .setRewardsSupplier a => (s.setRewardsSupplier sender a).map (.simple ·, none)
  | .setRole role account granted => (s.setRole sender role account granted).map (.simple ·, none)
  | .mint account amount => (s.mint sender account amount).map (.simple ·, none)
  | .stakeManager .. => .error .noFunction

def call (sender : Address) (now : Nat) (c : Call) :
    Distributor → Except Revert (Distributor × Option Payment)
  | .stakeManager s =>
    match c with
    | .setReward amount duration => callStakeManager s ⟨sender, 0, now⟩ (.setReward amount duration)
    | .redeemRewards account => callStakeManager s ⟨sender, 0, now⟩ (.redeemRewards account)
    | .stakeManager codehash c => callStakeManager s ⟨sender, codehash, now⟩ c
    | _ => .error .noFunction
  | .simple s => callSimple s sender c

end Distributor

-- The system

/-- Karma at the address `self`, and the distributors at theirs. -/
structure System where
  self : Address
  karma : Karma
  distributor : Address → Option Distributor

namespace System

variable (w : System)

def distributorAt (d : Address) : Except Revert Distributor :=
  match w.distributor d with
  | some c => .ok c
  | none => .error .noFunction

def callDistributor (env : Env) (sender d : Address) (c : Distributor.Call) :
    Except Revert System := do
  let distributor ← w.distributorAt d
  let (distributor, payment) ← distributor.call sender env.now c
  let w := { w with distributor := Function.update w.distributor d (some distributor) }
  match payment with
  | some p => do
    let karma ← w.karma.transfer env d p.account p.amount
    .ok { w with karma }
  | none => .ok w

def setReward (env : Env) (sender d : Address) (amount duration : Nat) : Except Revert System := do
  w.karma.onlyAdminOrOperator sender
  failIf (d ∉ w.karma.rewardDistributors) (.karma .unknownDistributor)
  let karma ← w.karma.mintTokens env d amount
  { w with karma }.callDistributor env w.self d (.setReward amount duration)

/-- Paused distributors are skipped. -/
def redeemFrom (env : Env) (account : Address) (w : System) (d : Address) :
    Except Revert System := do
  let distributor ← w.distributorAt d
  if distributor.isPaused = false then w.callDistributor env w.self d (.redeemRewards account)
  else .ok w

def slash (env : Env) (sender account rewardRecipient : Address) : Except Revert System := do
  w.karma.onlyAdminOrSlasher sender
  let w ← w.karma.rewardDistributors.foldlM (redeemFrom env account) w
  let karma ← w.karma.slashActual env account rewardRecipient
  .ok { w with karma }

-- Views

/-- `_balanceOf` -/
def anyBalanceOf (now : Nat) (account : Address) : Except Revert Nat := do
  let externalBalance ← w.karma.rewardDistributors.foldlM (fun total d => do
    let distributor ← w.distributorAt d
    let balance ← distributor.rewardsBalanceOfAccount now account
    add total balance) 0
  add (w.karma.balances account) externalBalance

def balanceOf (now : Nat) (account : Address) : Except Revert Nat :=
  if account ∈ w.karma.rewardDistributors then .ok 0 else w.anyBalanceOf now account

def actualTokenBalanceOf (account : Address) : Nat := w.karma.balances account

def totalSupply (now : Nat) : Except Revert Nat := do
  let (externalSupply, totalDistributorBalance) ←
    w.karma.rewardDistributors.foldlM (fun (p : Nat × Nat) d => do
      let distributor ← w.distributorAt d
      let supply ← distributor.totalRewardsSupply now
      let externalSupply ← add p.1 supply
      let totalDistributorBalance ← add p.2 (w.karma.balances d)
      .ok (externalSupply, totalDistributorBalance)) (0, 0)
  let externalSupply :=
    if externalSupply > totalDistributorBalance then totalDistributorBalance else externalSupply
  let actual ← sub w.karma.totalSupply totalDistributorBalance
  add actual externalSupply

-- Runs

inductive Action
  | mint (account : Address) (amount : Nat)
  | transfer (dst : Address) (amount : Nat)
  | slash (account rewardRecipient : Address)
  | setReward (distributor : Address) (amount duration : Nat)
  | delegate (delegatee : Address)
  | delegateBySig (signer delegatee : Address) (nonce expiry : Nat)
  | addRewardDistributor (distributor : Address)
  | removeRewardDistributor (distributor : Address)
  | setSlashPercentage (percentage : Nat)
  | setSlashRewardPercentage (percentage : Nat)
  | setAllowedToTransfer (account : Address) (allowed : Bool)
  | setGaugeVoter (gaugeVoter : Address)
  | setRole (role : Role) (account : Address) (granted : Bool)
  | callDistributor (distributor : Address) (call : Distributor.Call)

structure Tx where
  sender : Address
  env : Env
  action : Action

def Tx.now (tx : Tx) : Nat := tx.env.now

def withKarma (karma : Except Revert Karma) : Except Revert System :=
  karma.map ({ w with karma := · })

def apply (tx : Tx) : Except Revert System :=
  let sender := tx.sender
  let env := tx.env
  match tx.action with
  | .mint account amount => w.withKarma (w.karma.mint env sender account amount)
  | .transfer dst amount => w.withKarma (w.karma.transfer env sender dst amount)
  | .slash account rewardRecipient => w.slash env sender account rewardRecipient
  | .setReward d amount duration => w.setReward env sender d amount duration
  | .delegate delegatee => w.withKarma (w.karma.delegate env sender delegatee)
  | .delegateBySig signer delegatee nonce expiry =>
    w.withKarma (w.karma.delegateBySig env signer delegatee nonce expiry)
  | .addRewardDistributor d => w.withKarma (w.karma.addRewardDistributor sender d)
  | .removeRewardDistributor d => w.withKarma (w.karma.removeRewardDistributor env sender d)
  | .setSlashPercentage p => w.withKarma (w.karma.setSlashPercentage sender p)
  | .setSlashRewardPercentage p => w.withKarma (w.karma.setSlashRewardPercentage sender p)
  | .setAllowedToTransfer a allowed => w.withKarma (w.karma.setAllowedToTransfer sender a allowed)
  | .setGaugeVoter a => w.withKarma (w.karma.setGaugeVoter sender a)
  | .setRole role a granted => w.withKarma (w.karma.setRole sender role a granted)
  | .callDistributor d c => w.callDistributor env sender d c

/-- What the chain guarantees of a transaction: nobody acts as the zero address, distributors act
only by their own code, a vault has an owner, and a vault that is created is new. -/
def Possible (tx : Tx) : Prop :=
  tx.sender ≠ 0 ∧ w.distributor tx.sender = none ∧
    match tx.action with
    | .delegateBySig signer _ _ _ => signer ≠ 0
    | .callDistributor _ (.stakeManager _ (.registerVault _ owner _)) => owner ≠ 0
    | .callDistributor d (.stakeManager _ (.createMigrationVault vault)) =>
      ∀ s, w.distributor d = some (.stakeManager s) → s.vaultOwners vault = 0
    | _ => True

def Initial : Prop :=
  (∃ owner, w.karma = .initialized owner) ∧
    ∀ d c, w.distributor d = some c →
      (∃ owner maxVaultsPerUser, c = .stakeManager (.initialized owner maxVaultsPerUser)) ∨
        ∃ owner, c = .simple (.initialized owner)

end System

end StatusNetwork.Reputation
