import Mathlib.Logic.Function.Basic
import StatusNetwork.Staking.StakeMath

/-!
# The accounts of the stake manager

The part of `StakeManager.sol` that keeps stakes, multiplier points and rewards:
what every operation does to the totals, to the reward period and to the data of
the vaults, once its modifiers have let it through.
-/

namespace StatusNetwork.Staking

abbrev Address := BitVec 160

instance : LawfulBEq Address := inferInstance

structure VaultData where
  stakedBalance : Nat
  rewardIndex : Nat
  mpAccrued : Nat
  maxMP : Nat
  lastMPUpdateTime : Nat
  rewardsAccrued : Nat
  deriving DecidableEq

def VaultData.empty : VaultData := ⟨0, 0, 0, 0, 0, 0⟩

def SCALE_FACTOR : Nat := 10 ^ 27

structure Ledger where
  totalStaked : Nat
  totalMPStaked : Nat
  totalRewardsAccrued : Nat
  lastRewardIndex : Nat
  rewardAmount : Nat
  lastRewardTime : Nat
  rewardStartTime : Nat
  rewardEndTime : Nat
  vaultData : Address → VaultData

namespace Ledger

def empty : Ledger := ⟨0, 0, 0, 0, 0, 0, 0, 0, fun _ => .empty⟩

def setVault (l : Ledger) (vault : Address) (data : VaultData) : Ledger :=
  { l with vaultData := Function.update l.vaultData vault data }

-- Pending rewards and points

def totalShares (l : Ledger) : Except Revert Nat := add l.totalStaked l.totalMPStaked

def calculatePendingRewards (l : Ledger) (now : Nat) : Except Revert Nat :=
  -- no active reward period
  if l.rewardEndTime ≤ l.rewardStartTime then .ok 0
  else
    let currentTime := if now < l.rewardEndTime then now else l.rewardEndTime
    if currentTime ≤ l.lastRewardTime then .ok 0
    else do
      let timeElapsed ← sub currentTime l.lastRewardTime
      let duration ← sub l.rewardEndTime l.rewardStartTime
      if duration = 0 then .ok 0 else mulDiv timeElapsed l.rewardAmount duration

/-- `_rewardIndex`: the rewards accrued since `lastRewardTime` and the index with them. -/
def rewardIndex (l : Ledger) (now : Nat) : Except Revert (Nat × Nat) := do
  let shares ← l.totalShares
  if shares = 0 then .ok (0, l.lastRewardIndex)
  else do
    let applicableTime := if l.rewardEndTime > now then now else l.rewardEndTime
    let elapsedTime ← sub applicableTime l.lastRewardTime
    if elapsedTime = 0 then .ok (0, l.lastRewardIndex)
    else do
      let accruedRewards ← l.calculatePendingRewards now
      if accruedRewards = 0 then .ok (0, l.lastRewardIndex)
      else do
        let increment ← mulDiv accruedRewards SCALE_FACTOR shares
        let newRewardIndex ← add l.lastRewardIndex increment
        .ok (accruedRewards, newRewardIndex)

def vaultPendingRewards (l : Ledger) (now : Nat) (vault : VaultData) : Except Revert Nat := do
  let (_, newRewardIndex) ← l.rewardIndex now
  let accountShares ← add vault.stakedBalance vault.mpAccrued
  let deltaRewardIndex ← sub newRewardIndex vault.rewardIndex
  let product ← mul accountShares deltaRewardIndex
  .ok (product / SCALE_FACTOR)

def vaultPendingMP (now : Nat) (vault : VaultData) : Except Revert Nat :=
  if now = vault.lastMPUpdateTime then .ok 0
  else if vault.maxMP = 0 ∨ vault.stakedBalance = 0 then .ok 0
  else calculateAccrual vault.stakedBalance vault.mpAccrued vault.maxMP vault.lastMPUpdateTime now

def totalRewardsSupply (l : Ledger) (now : Nat) : Except Revert Nat := do
  let pending ← l.calculatePendingRewards now
  add l.totalRewardsAccrued pending

def rewardsBalanceOf (l : Ledger) (now : Nat) (vaultAddress : Address) : Except Revert Nat := do
  let pending ← l.vaultPendingRewards now (l.vaultData vaultAddress)
  add (l.vaultData vaultAddress).rewardsAccrued pending

-- Updates

/-- `_updateRewardIndex`. The accrued rewards are counted also when the index stays. -/
def updateRewardIndex (l : Ledger) (now : Nat) : Except Revert Ledger := do
  let (accruedRewards, newRewardIndex) ← l.rewardIndex now
  let totalRewardsAccrued ← add l.totalRewardsAccrued accruedRewards
  if newRewardIndex > l.lastRewardIndex then
    .ok { l with
      totalRewardsAccrued
      lastRewardIndex := newRewardIndex
      lastRewardTime := if now < l.rewardEndTime then now else l.rewardEndTime }
  else .ok { l with totalRewardsAccrued }

def updateVault (l : Ledger) (now : Nat) (vaultAddress : Address) (forceMPUpdate : Bool) :
    Except Revert Ledger := do
  let vault := l.vaultData vaultAddress
  let pending ← l.vaultPendingRewards now vault
  let rewardsAccrued ← add vault.rewardsAccrued pending
  let vault := { vault with rewardsAccrued, rewardIndex := l.lastRewardIndex }
  let accruedMP ← vaultPendingMP now vault
  if accruedMP > 0 ∨ forceMPUpdate = true then do
    let mpAccrued ← add vault.mpAccrued accruedMP
    let totalMPStaked ← add l.totalMPStaked accruedMP
    .ok { l.setVault vaultAddress { vault with mpAccrued, lastMPUpdateTime := now } with
      totalMPStaked }
  else .ok (l.setVault vaultAddress vault)

def reduceStake (l : Ledger) (vaultAddress : Address) (amount : Nat) : Except Revert Ledger := do
  let vault := l.vaultData vaultAddress
  let (deltaMpTotal, deltaMpMax) ←
    calculateUnstake vault.stakedBalance vault.mpAccrued vault.maxMP amount
  let stakedBalance ← sub vault.stakedBalance amount
  let maxMP ← sub vault.maxMP deltaMpMax
  let mpAccrued ← sub vault.mpAccrued deltaMpTotal
  let totalMPStaked ← sub l.totalMPStaked deltaMpTotal
  let totalStaked ← sub l.totalStaked amount
  .ok { l.setVault vaultAddress
      { vault with stakedBalance, maxMP, rewardIndex := l.lastRewardIndex, mpAccrued } with
    totalMPStaked, totalStaked }

-- Operations

def stake (l : Ledger) (now : Nat) (vaultAddress : Address)
    (amount lockPeriod currentLockUntil : Nat) : Except Revert (Ledger × Nat) := do
  let l ← l.updateRewardIndex now
  let l ← l.updateVault now vaultAddress true
  let vault := l.vaultData vaultAddress
  let (deltaMpTotal, deltaMPMax, newLockEnd) ←
    calculateStake vault.stakedBalance vault.maxMP currentLockUntil now amount lockPeriod
  let stakedBalance ← add vault.stakedBalance amount
  let totalStaked ← add l.totalStaked amount
  let totalMPStaked ← add l.totalMPStaked deltaMpTotal
  let mpAccrued ← add vault.mpAccrued deltaMpTotal
  let maxMP ← add vault.maxMP deltaMPMax
  .ok ({ l.setVault vaultAddress
      { vault with stakedBalance, mpAccrued, maxMP, rewardIndex := l.lastRewardIndex } with
    totalStaked, totalMPStaked }, newLockEnd)

def lock (l : Ledger) (now : Nat) (vaultAddress : Address) (lockPeriod currentLockUntil : Nat) :
    Except Revert (Ledger × Nat) := do
  let l ← l.updateRewardIndex now
  let l ← l.updateVault now vaultAddress false
  let vault := l.vaultData vaultAddress
  let (deltaMp, newLockEnd) ←
    calculateLock vault.stakedBalance vault.maxMP currentLockUntil now lockPeriod
  let mpAccrued ← add vault.mpAccrued deltaMp
  let maxMP ← add vault.maxMP deltaMp
  let totalMPStaked ← add l.totalMPStaked deltaMp
  .ok ({ l.setVault vaultAddress
      { vault with mpAccrued, maxMP, rewardIndex := l.lastRewardIndex } with
    totalMPStaked }, newLockEnd)

def unstake (l : Ledger) (now : Nat) (vaultAddress : Address) (amount : Nat) :
    Except Revert Ledger := do
  let l ← l.updateRewardIndex now
  let l ← l.updateVault now vaultAddress false
  l.reduceStake vaultAddress amount

/-- Nothing is updated before a vault leaves. -/
def leave (l : Ledger) (vaultAddress : Address) : Except Revert Ledger := do
  let stakedBalance := (l.vaultData vaultAddress).stakedBalance
  let l ← (if stakedBalance > 0 then l.reduceStake vaultAddress stakedBalance else .ok l)
  .ok (l.setVault vaultAddress .empty)

/-- What the running period has not distributed at `now`. -/
def remainingRewards (l : Ledger) (now : Nat) : Except Revert Nat :=
  if l.rewardEndTime > now then do
    let elapsedTime ← sub now l.rewardStartTime
    let totalDuration ← sub l.rewardEndTime l.rewardStartTime
    let distributedRewards ← mulDiv elapsedTime l.rewardAmount totalDuration
    sub l.rewardAmount distributedRewards
  else .ok 0

def setReward (l : Ledger) (now amount duration : Nat) : Except Revert Ledger := do
  let l ← l.updateRewardIndex now
  let remainingRewards ← l.remainingRewards now
  let rewardAmount ← add remainingRewards amount
  let rewardEndTime ← add now duration
  .ok { l with lastRewardTime := now, rewardAmount, rewardStartTime := now, rewardEndTime }

def updateAccount (l : Ledger) (now : Nat) (accountVaults : List Address) :
    Except Revert Ledger := do
  let l ← l.updateRewardIndex now
  accountVaults.foldlM (fun l vault => l.updateVault now vault false) l

/-- One vault of `redeemRewards`; the second component is what was redeemed so far. -/
def redeemVault (now : Nat) (acc : Ledger × Nat) (vaultAddress : Address) :
    Except Revert (Ledger × Nat) := do
  let l ← acc.1.updateVault now vaultAddress false
  let vault := l.vaultData vaultAddress
  let redeemed ← add acc.2 vault.rewardsAccrued
  let totalRewardsAccrued ←
    Checked.sub (fun _ => .rewardsUnderflow) l.totalRewardsAccrued vault.rewardsAccrued
  .ok ({ l.setVault vaultAddress { vault with rewardsAccrued := 0 } with totalRewardsAccrued },
    redeemed)

def redeemRewards (l : Ledger) (now : Nat) (accountVaults : List Address) :
    Except Revert (Ledger × Nat) := do
  let l ← l.updateRewardIndex now
  accountVaults.foldlM (redeemVault now) (l, 0)

/-- The data moves as it is; a target may hold neither stake nor settled rewards. -/
def migrateToVault (l : Ledger) (now : Nat) (vaultAddress migrateTo : Address) :
    Except Revert Ledger := do
  failIf ((l.vaultData migrateTo).stakedBalance > 0 ∨
    (l.vaultData migrateTo).rewardsAccrued > 0) (.stakeManager .migrationTargetHasFunds)
  let l ← l.updateRewardIndex now
  let l ← l.updateVault now vaultAddress false
  let l := l.setVault migrateTo (l.vaultData vaultAddress)
  .ok (l.setVault vaultAddress .empty)

end Ledger

end StatusNetwork.Staking
