import StatusNetwork.Base.Runs
import StatusNetwork.Staking.Ledger

/-!
# The stake manager

Models `StakeManager.sol` and `TrustedCodehashAccess.sol`: the modifiers of every
function, the registry of vaults, and the runs of the contract. What another
contract answers is an argument of the call: the owner of a vault to register, the
address of a vault the factory creates, the codehash of an address.
-/

namespace StatusNetwork.Staking

abbrev Codehash := BitVec 256

inductive Role
  | defaultAdmin
  | guardian
  deriving DecidableEq

/-- Which vaults an account has, and whose a vault is. -/
structure Registry where
  vaults : Address → List Address
  vaultOwners : Address → Address

structure StakeManager extends Ledger, Registry where
  rewardsSupplier : Address
  vaultFactory : Address
  maxVaultsPerUser : Nat
  emergencyModeEnabled : Bool
  paused : Bool
  trustedCodehashes : Codehash → Bool
  hasRole : Role → Address → Bool

/-- The sender of a transaction, the codehash of the sender, and the time of its block. -/
structure Msg where
  sender : Address
  codehash : Codehash
  timestamp : Nat

namespace Registry

def empty : Registry := ⟨fun _ => [], fun _ => 0⟩

def register (r : Registry) (vault owner : Address) : Registry where
  vaultOwners := Function.update r.vaultOwners vault owner
  vaults := Function.update r.vaults owner (r.vaults owner ++ [vault])

/-- The loop of `_deregisterVault`: the last entry takes the place of the first one equal
to `vault`, and the list is shortened. -/
def swapRemove (vault : Address) (ownerVaults : List Address) : List Address :=
  match ownerVaults.findIdx? (· = vault) with
  | some i => (ownerVaults.set i (ownerVaults.getLastD 0)).dropLast
  | none => ownerVaults

def deregister (r : Registry) (vault : Address) : Registry where
  vaultOwners := Function.update r.vaultOwners vault 0
  vaults := Function.update r.vaults (r.vaultOwners vault)
    (swapRemove vault (r.vaults (r.vaultOwners vault)))

end Registry

namespace StakeManager

def initialized (owner : Address) (maxVaultsPerUser : Nat) : StakeManager where
  toLedger := .empty
  toRegistry := .empty
  rewardsSupplier := 0
  vaultFactory := 0
  maxVaultsPerUser
  emergencyModeEnabled := false
  paused := false
  trustedCodehashes := fun _ => false
  hasRole := fun role account => role = .defaultAdmin ∧ account = owner

-- Modifiers

section modifiers
variable (s : StakeManager)

def onlyNotEmergencyMode : Except Revert Unit :=
  failIf (s.emergencyModeEnabled = true) (.stakeManager .emergencyModeEnabled)

def whenNotPaused : Except Revert Unit := failIf (s.paused = true) .paused

def onlyTrustedCodehash (codehash : Codehash) : Except Revert Unit :=
  failIf (s.trustedCodehashes codehash = false) .unauthorizedCodehash

def onlyRegisteredVault (sender : Address) : Except Revert Unit :=
  failIf (s.vaultOwners sender = 0) (.stakeManager .vaultNotRegistered)

def onlyRewardsSupplier (sender : Address) : Except Revert Unit :=
  failIf (sender ≠ s.rewardsSupplier) (.stakeManager .unauthorized)

def onlyVaultFactory (sender : Address) : Except Revert Unit :=
  failIf (sender ≠ s.vaultFactory) (.stakeManager .unauthorized)

def onlyRole (role : Role) (sender : Address) : Except Revert Unit :=
  failIf (s.hasRole role sender = false) .missingRole

def onlyAdminOrGuardian (sender : Address) : Except Revert Unit :=
  failIf (s.hasRole .guardian sender = false ∧ s.hasRole .defaultAdmin sender = false)
    (.stakeManager .unauthorized)

/-- The modifiers of `updateRewards`, `updateAccount`, `updateVault` and `redeemRewards`. -/
def whenActive : Except Revert Unit := do
  s.onlyNotEmergencyMode
  s.whenNotPaused

/-- The modifiers of the calls a registered vault makes. -/
def onlyActiveVault (msg : Msg) : Except Revert Unit := do
  s.onlyNotEmergencyMode
  s.whenNotPaused
  s.onlyTrustedCodehash msg.codehash
  s.onlyRegisteredVault msg.sender

/-- The modifiers of the setters of the configuration. -/
def onlyAdmin (msg : Msg) : Except Revert Unit := do
  s.onlyNotEmergencyMode
  s.onlyRole .defaultAdmin msg.sender

end modifiers

-- Functions

def setRewardsSupplier (s : StakeManager) (msg : Msg) (rewardsSupplier : Address) :
    Except Revert StakeManager := do
  s.onlyAdmin msg
  .ok { s with rewardsSupplier }

def setVaultFactory (s : StakeManager) (msg : Msg) (vaultFactory : Address) :
    Except Revert StakeManager := do
  s.onlyAdmin msg
  .ok { s with vaultFactory }

def setMaxVaultsPerUser (s : StakeManager) (msg : Msg) (maxVaultsPerUser : Nat) :
    Except Revert StakeManager := do
  s.onlyAdmin msg
  failIf (maxVaultsPerUser = 0) (.stakeManager .maxVaultsPerUserCannotBeZero)
  .ok { s with maxVaultsPerUser }

def setTrustedCodehash (s : StakeManager) (msg : Msg) (codehash : Codehash) (trusted : Bool) :
    Except Revert StakeManager := do
  s.onlyRole .defaultAdmin msg.sender
  .ok { s with trustedCodehashes := Function.update s.trustedCodehashes codehash trusted }

/-- `grantRole` and `revokeRole` of the access control library. -/
def setRole (s : StakeManager) (msg : Msg) (role : Role) (account : Address) (granted : Bool) :
    Except Revert StakeManager := do
  s.onlyRole .defaultAdmin msg.sender
  .ok { s with
    hasRole := Function.update s.hasRole role (Function.update (s.hasRole role) account granted) }

/-- `owner` and `codehash` are what the vault answers. -/
def registerVault (s : StakeManager) (msg : Msg) (vault owner : Address) (codehash : Codehash) :
    Except Revert StakeManager := do
  s.whenActive
  s.onlyVaultFactory msg.sender
  failIf (s.maxVaultsPerUser ≤ (s.vaults owner).length)
    (.stakeManager .maxVaultsPerUserReached)
  s.onlyTrustedCodehash codehash
  failIf (s.vaultOwners vault ≠ 0) (.stakeManager .vaultAlreadyRegistered)
  .ok { s with toRegistry := s.register vault owner }

def stake (s : StakeManager) (msg : Msg) (amount lockPeriod currentLockUntil : Nat) :
    Except Revert (StakeManager × Nat) := do
  s.onlyActiveVault msg
  failIf (amount = 0) (.stakeManager .amountCannotBeZero)
  let (l, newLockUntil) ←
    s.toLedger.stake msg.timestamp msg.sender amount lockPeriod currentLockUntil
  .ok ({ s with toLedger := l }, newLockUntil)

def lock (s : StakeManager) (msg : Msg) (lockPeriod currentLockUntil : Nat) :
    Except Revert (StakeManager × Nat) := do
  s.onlyActiveVault msg
  failIf (lockPeriod = 0) (.stakeManager .durationCannotBeZero)
  let (l, newLockUntil) ← s.toLedger.lock msg.timestamp msg.sender lockPeriod currentLockUntil
  .ok ({ s with toLedger := l }, newLockUntil)

def unstake (s : StakeManager) (msg : Msg) (amount : Nat) : Except Revert StakeManager := do
  s.onlyActiveVault msg
  let l ← s.toLedger.unstake msg.timestamp msg.sender amount
  .ok { s with toLedger := l }

/-- Allowed also in emergency mode, while paused, and to vaults that are not registered. -/
def leave (s : StakeManager) (msg : Msg) : Except Revert StakeManager := do
  s.onlyTrustedCodehash msg.codehash
  let l ← s.toLedger.leave msg.sender
  .ok { s with toLedger := l, toRegistry := s.deregister msg.sender }

def updateRewards (s : StakeManager) (msg : Msg) : Except Revert StakeManager := do
  s.whenActive
  let l ← s.toLedger.updateRewardIndex msg.timestamp
  .ok { s with toLedger := l }

def setReward (s : StakeManager) (msg : Msg) (amount duration : Nat) :
    Except Revert StakeManager := do
  s.whenActive
  s.onlyRewardsSupplier msg.sender
  failIf (duration = 0) (.stakeManager .durationCannotBeZero)
  failIf (amount = 0) (.stakeManager .amountCannotBeZero)
  let l ← s.toLedger.setReward msg.timestamp amount duration
  .ok { s with toLedger := l }

def updateAccount (s : StakeManager) (msg : Msg) (account : Address) :
    Except Revert StakeManager := do
  s.whenActive
  let l ← s.toLedger.updateAccount msg.timestamp (s.vaults account)
  .ok { s with toLedger := l }

/-- What is redeemed is transferred to the account in the same call; the transfer is the
reward token's, and does not touch the state of the manager. -/
def redeemRewards (s : StakeManager) (msg : Msg) (account : Address) :
    Except Revert (StakeManager × Nat) := do
  s.whenActive
  let (l, redeemed) ← s.toLedger.redeemRewards msg.timestamp (s.vaults account)
  .ok ({ s with toLedger := l }, redeemed)

def updateVault (s : StakeManager) (msg : Msg) (vaultAddress : Address) :
    Except Revert StakeManager := do
  s.whenActive
  let l ← s.toLedger.updateRewardIndex msg.timestamp
  let l ← l.updateVault msg.timestamp vaultAddress false
  .ok { s with toLedger := l }

def enableEmergencyMode (s : StakeManager) (msg : Msg) : Except Revert StakeManager := do
  s.onlyNotEmergencyMode
  s.onlyAdminOrGuardian msg.sender
  .ok { s with emergencyModeEnabled := true }

def pause (s : StakeManager) (msg : Msg) : Except Revert StakeManager := do
  s.onlyNotEmergencyMode
  s.onlyAdminOrGuardian msg.sender
  s.whenNotPaused
  .ok { s with paused := true }

def unpause (s : StakeManager) (msg : Msg) : Except Revert StakeManager := do
  s.onlyNotEmergencyMode
  s.onlyAdminOrGuardian msg.sender
  failIf (s.paused = false) .notPaused
  .ok { s with paused := false }

/-- The call that hands the lock and the deposit to the target is the target vault's. -/
def migrateToVault (s : StakeManager) (msg : Msg) (migrateTo : Address) :
    Except Revert StakeManager := do
  s.onlyActiveVault msg
  failIf (s.vaultOwners migrateTo = 0) (.stakeManager .invalidVault)
  let l ← s.toLedger.migrateToVault msg.timestamp msg.sender migrateTo
  .ok { s with toLedger := l, toRegistry := s.deregister msg.sender }

/-- `vault` is the address of the vault the factory creates. -/
def createMigrationVault (s : StakeManager) (msg : Msg) (vault : Address) :
    Except Revert StakeManager := do
  s.onlyActiveVault msg
  .ok { s with toRegistry := s.register vault (s.vaultOwners msg.sender) }

def isPaused (s : StakeManager) : Bool := s.paused || s.emergencyModeEnabled

def rewardsBalanceOfAccount (s : StakeManager) (now : Nat) (account : Address) :
    Except Revert Nat :=
  (s.vaults account).foldlM (fun total vault => do
    let balance ← s.toLedger.rewardsBalanceOf now vault
    add total balance) 0

-- Runs

inductive Call
  | setRewardsSupplier (rewardsSupplier : Address)
  | setVaultFactory (vaultFactory : Address)
  | setMaxVaultsPerUser (maxVaultsPerUser : Nat)
  | setTrustedCodehash (codehash : Codehash) (trusted : Bool)
  | setRole (role : Role) (account : Address) (granted : Bool)
  | registerVault (vault owner : Address) (codehash : Codehash)
  | stake (amount lockPeriod currentLockUntil : Nat)
  | lock (lockPeriod currentLockUntil : Nat)
  | unstake (amount : Nat)
  | leave
  | updateRewards
  | setReward (amount duration : Nat)
  | updateAccount (account : Address)
  | redeemRewards (account : Address)
  | updateVault (vaultAddress : Address)
  | enableEmergencyMode
  | pause
  | unpause
  | migrateToVault (migrateTo : Address)
  | createMigrationVault (vault : Address)

/-- One transaction: the state after it, and the amount or the time it returns. -/
def call (s : StakeManager) (msg : Msg) : Call → Except Revert (StakeManager × Nat)
  | .setRewardsSupplier a => (s.setRewardsSupplier msg a).map (·, 0)
  | .setVaultFactory a => (s.setVaultFactory msg a).map (·, 0)
  | .setMaxVaultsPerUser n => (s.setMaxVaultsPerUser msg n).map (·, 0)
  | .setTrustedCodehash c b => (s.setTrustedCodehash msg c b).map (·, 0)
  | .setRole r a b => (s.setRole msg r a b).map (·, 0)
  | .registerVault v o c => (s.registerVault msg v o c).map (·, 0)
  | .stake a p u => s.stake msg a p u
  | .lock p u => s.lock msg p u
  | .unstake a => (s.unstake msg a).map (·, 0)
  | .leave => (s.leave msg).map (·, 0)
  | .updateRewards => (s.updateRewards msg).map (·, 0)
  | .setReward a d => (s.setReward msg a d).map (·, 0)
  | .updateAccount a => (s.updateAccount msg a).map (·, 0)
  | .redeemRewards a => s.redeemRewards msg a
  | .updateVault v => (s.updateVault msg v).map (·, 0)
  | .enableEmergencyMode => (s.enableEmergencyMode msg).map (·, 0)
  | .pause => (s.pause msg).map (·, 0)
  | .unpause => (s.unpause msg).map (·, 0)
  | .migrateToVault v => (s.migrateToVault msg v).map (·, 0)
  | .createMigrationVault v => (s.createMigrationVault msg v).map (·, 0)

def apply (s : StakeManager) (tx : Msg × Call) : Except Revert StakeManager :=
  (s.call tx.1 tx.2).map (·.1)

/-- The states a manager gets into by the block at time `now`: any senders and any calls, the
ones that revert leaving no trace, in blocks whose time does not decrease. -/
def Reachable : StakeManager → (now : Nat) → Prop :=
  Runs.Reachable (fun tx : Msg × Call => tx.1.timestamp)
    (fun s => ∃ owner maxVaultsPerUser, s = initialized owner maxVaultsPerUser)
    (fun s tx s' => s.apply tx = .ok s')

end StakeManager

-- What a transaction does to the accounts

/-- Whether a transaction updates the reward index, the rewards it adds and the rewards it
pays out. -/
structure Effect where
  updatesIndex : Bool
  funded : Nat
  redeemed : Nat

def StakeManager.Call.effect (returned : Nat) : Call → Effect
  | .stake .. | .lock .. | .unstake .. | .updateRewards | .updateAccount .. | .updateVault ..
  | .migrateToVault .. => ⟨true, 0, 0⟩
  | .setReward amount _ => ⟨true, amount, 0⟩
  | .redeemRewards _ => ⟨true, 0, returned⟩
  | _ => ⟨false, 0, 0⟩

def StakeManager.Call.updatesIndex (c : Call) : Bool := (c.effect 0).updatesIndex

/-- The steps of the accounts at time `now`. -/
inductive Ledger.Step (now : Nat) : Ledger → Effect → Ledger → Prop
  | idle : Step now l ⟨false, 0, 0⟩ l
  | leave : l.leave v = .ok l' → Step now l ⟨false, 0, 0⟩ l'
  | updateRewards : l.updateRewardIndex now = .ok l' → Step now l ⟨true, 0, 0⟩ l'
  | updateVault : l.updateRewardIndex now = .ok l₁ → l₁.updateVault now v false = .ok l' →
    Step now l ⟨true, 0, 0⟩ l'
  | updateAccount : l.updateAccount now vs = .ok l' → Step now l ⟨true, 0, 0⟩ l'
  | stake : l.stake now v amount period lockUntil = .ok (l', r) → Step now l ⟨true, 0, 0⟩ l'
  | lock : l.lock now v period lockUntil = .ok (l', r) → Step now l ⟨true, 0, 0⟩ l'
  | unstake : l.unstake now v amount = .ok l' → Step now l ⟨true, 0, 0⟩ l'
  | migrateToVault : l.migrateToVault now v migrateTo = .ok l' → Step now l ⟨true, 0, 0⟩ l'
  | setReward : l.setReward now amount duration = .ok l' → Step now l ⟨true, amount, 0⟩ l'
  | redeemRewards : l.redeemRewards now vs = .ok (l', r) → Step now l ⟨true, 0, r⟩ l'

namespace StakeManager

/-- Calls that touch neither the accounts nor the registry. -/
def Call.setsUp : Call → Bool
  | .setRewardsSupplier _ | .setVaultFactory _ | .setMaxVaultsPerUser _ | .setTrustedCodehash ..
  | .setRole .. | .enableEmergencyMode | .pause | .unpause => true
  | _ => false

theorem Call.effect_setsUp {c : Call} (h : c.setsUp = true) : c.effect r = ⟨false, 0, 0⟩ := by
  cases c <;> first | rfl | cases h

/-- What a call that succeeds makes of the state. -/
inductive Done (s : StakeManager) (msg : Msg) : Call → StakeManager → Nat → Prop
  | setsUp {s' : StakeManager} : c.setsUp = true → s'.toLedger = s.toLedger →
    s'.toRegistry = s.toRegistry →
    (c ≠ .enableEmergencyMode → s'.emergencyModeEnabled = s.emergencyModeEnabled) →
    Done s msg c s' r
  | registerVault : s.vaultOwners v = 0 → (s.vaults owner).length < s.maxVaultsPerUser →
    Done s msg (.registerVault v owner codehash) { s with toRegistry := s.register v owner } 0
  | createMigrationVault : s.vaultOwners msg.sender ≠ 0 →
    Done s msg (.createMigrationVault v)
      { s with toRegistry := s.register v (s.vaultOwners msg.sender) } 0
  | stake : s.vaultOwners msg.sender ≠ 0 →
    s.toLedger.stake msg.timestamp msg.sender amount period u = .ok (l, r) →
    Done s msg (.stake amount period u) { s with toLedger := l } r
  | lock : s.vaultOwners msg.sender ≠ 0 →
    s.toLedger.lock msg.timestamp msg.sender period u = .ok (l, r) →
    Done s msg (.lock period u) { s with toLedger := l } r
  | unstake : s.vaultOwners msg.sender ≠ 0 →
    s.toLedger.unstake msg.timestamp msg.sender amount = .ok l →
    Done s msg (.unstake amount) { s with toLedger := l } 0
  | leave : s.toLedger.leave msg.sender = .ok l →
    Done s msg .leave { s with toLedger := l, toRegistry := s.deregister msg.sender } 0
  | migrateToVault : s.vaultOwners msg.sender ≠ 0 → s.vaultOwners v ≠ 0 →
    s.toLedger.migrateToVault msg.timestamp msg.sender v = .ok l →
    Done s msg (.migrateToVault v)
      { s with toLedger := l, toRegistry := s.deregister msg.sender } 0
  | updateRewards : s.toLedger.updateRewardIndex msg.timestamp = .ok l →
    Done s msg .updateRewards { s with toLedger := l } 0
  | setReward : s.toLedger.setReward msg.timestamp amount duration = .ok l →
    Done s msg (.setReward amount duration) { s with toLedger := l } 0
  | updateAccount : s.toLedger.updateAccount msg.timestamp (s.vaults account) = .ok l →
    Done s msg (.updateAccount account) { s with toLedger := l } 0
  | redeemRewards : s.toLedger.redeemRewards msg.timestamp (s.vaults account) = .ok (l, r) →
    Done s msg (.redeemRewards account) { s with toLedger := l } r
  | updateVault : s.toLedger.updateRewardIndex msg.timestamp = .ok l₁ →
    l₁.updateVault msg.timestamp v false = .ok l →
    Done s msg (.updateVault v) { s with toLedger := l } 0

variable {s s' : StakeManager}

theorem onlyActiveVault_ok (h : s.onlyActiveVault msg = .ok u) : s.vaultOwners msg.sender ≠ 0 := by
  simp only [onlyActiveVault, bind_eq_ok, onlyRegisteredVault, failIf_eq_ok] at h
  obtain ⟨-, -, -, -, -, -, hregistered⟩ := h
  exact hregistered

theorem call_done (h : s.call msg c = .ok (s', r)) : Done s msg c s' r := by
  cases c with
  | setRewardsSupplier | setVaultFactory | setMaxVaultsPerUser | setTrustedCodehash | setRole
  | enableEmergencyMode | pause | unpause =>
    simp only [call, map_eq_ok, setRewardsSupplier, setVaultFactory, setMaxVaultsPerUser,
      setTrustedCodehash, setRole, enableEmergencyMode, pause, unpause, bind_eq_ok,
      Except.ok.injEq, Prod.mk.injEq] at h
    exact .setsUp rfl (by grind) (by grind) (by grind)
  | registerVault v owner codehash =>
    simp only [call, registerVault, map_eq_ok, bind_eq_ok, failIf_eq_ok, Nat.not_le,
      Decidable.not_not] at h
    obtain ⟨_, ⟨-, -, -, -, -, hroom, -, -, -, hnew, ⟨⟩⟩, ⟨⟩⟩ := h
    exact .registerVault hnew hroom
  | createMigrationVault v =>
    simp only [call, createMigrationVault, map_eq_ok, bind_eq_ok] at h
    obtain ⟨_, ⟨_, hactive, ⟨⟩⟩, ⟨⟩⟩ := h
    exact .createMigrationVault (onlyActiveVault_ok hactive)
  | stake amount period lockUntil =>
    simp only [call, stake, bind_eq_ok] at h
    obtain ⟨_, hactive, -, -, ⟨l, _⟩, h, ⟨⟩⟩ := h
    exact .stake (onlyActiveVault_ok hactive) h
  | lock period lockUntil =>
    simp only [call, lock, bind_eq_ok] at h
    obtain ⟨_, hactive, -, -, ⟨l, _⟩, h, ⟨⟩⟩ := h
    exact .lock (onlyActiveVault_ok hactive) h
  | unstake amount =>
    simp only [call, unstake, map_eq_ok, bind_eq_ok] at h
    obtain ⟨_, ⟨_, hactive, l, h, ⟨⟩⟩, ⟨⟩⟩ := h
    exact .unstake (onlyActiveVault_ok hactive) h
  | leave =>
    simp only [call, leave, map_eq_ok, bind_eq_ok] at h
    obtain ⟨_, ⟨-, -, l, h, ⟨⟩⟩, ⟨⟩⟩ := h
    exact .leave h
  | updateRewards =>
    simp only [call, updateRewards, map_eq_ok, bind_eq_ok] at h
    obtain ⟨_, ⟨-, -, l, h, ⟨⟩⟩, ⟨⟩⟩ := h
    exact .updateRewards h
  | setReward amount duration =>
    simp only [call, setReward, map_eq_ok, bind_eq_ok] at h
    obtain ⟨_, ⟨-, -, -, -, -, -, -, -, l, h, ⟨⟩⟩, ⟨⟩⟩ := h
    exact .setReward h
  | updateAccount account =>
    simp only [call, updateAccount, map_eq_ok, bind_eq_ok] at h
    obtain ⟨_, ⟨-, -, l, h, ⟨⟩⟩, ⟨⟩⟩ := h
    exact .updateAccount h
  | redeemRewards account =>
    simp only [call, redeemRewards, bind_eq_ok] at h
    obtain ⟨-, -, ⟨l, _⟩, h, ⟨⟩⟩ := h
    exact .redeemRewards h
  | updateVault vaultAddress =>
    simp only [call, updateVault, map_eq_ok, bind_eq_ok] at h
    obtain ⟨_, ⟨-, -, l, hindex, l', h, ⟨⟩⟩, ⟨⟩⟩ := h
    exact .updateVault hindex h
  | migrateToVault migrateTo =>
    simp only [call, migrateToVault, map_eq_ok, bind_eq_ok, failIf_eq_ok] at h
    obtain ⟨_, ⟨_, hactive, -, htarget, l, h, ⟨⟩⟩, ⟨⟩⟩ := h
    exact .migrateToVault (onlyActiveVault_ok hactive) htarget h

theorem call_step (h : s.call msg c = .ok (s', r)) :
    Ledger.Step msg.timestamp s.toLedger (c.effect r) s'.toLedger := by
  cases call_done h with
  | setsUp hc hledger =>
    rw [hledger, Call.effect_setsUp hc]
    exact .idle
  | registerVault | createMigrationVault => exact .idle
  | stake _ hl => exact .stake hl
  | lock _ hl => exact .lock hl
  | unstake _ hl => exact .unstake hl
  | leave hl => exact .leave hl
  | migrateToVault _ _ hl => exact .migrateToVault hl
  | updateRewards hl => exact .updateRewards hl
  | setReward hl => exact .setReward hl
  | updateAccount hl => exact .updateAccount hl
  | redeemRewards hl => exact .redeemRewards hl
  | updateVault hindex hl => exact .updateVault hindex hl

end StakeManager

end StatusNetwork.Staking
