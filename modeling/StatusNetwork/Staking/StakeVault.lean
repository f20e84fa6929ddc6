import StatusNetwork.Base.Balances
import StatusNetwork.Staking.StakeManager

/-!
# Stake vaults

Models `StakeVault.sol` and `VaultFactory.sol` over the stake manager and a standard
ERC20 staking token: the vaults, the manager's record of them and the tokens they hold
live in three contracts and are changed by the same transactions.
-/

namespace StatusNetwork.Staking

-- The staking token

structure Token where
  balanceOf : Address → Nat
  allowance : Address → Address → Nat

namespace Token

def transfer (t : Token) (sender dst : Address) (amount : Nat) : Except Revert Token := do
  failIf (t.balanceOf sender < amount) .transferExceedsBalance
  .ok { t with balanceOf := Balances.move t.balanceOf sender dst amount }

def transferFrom (t : Token) (sender src dst : Address) (amount : Nat) : Except Revert Token := do
  failIf (t.allowance src sender < amount) .insufficientAllowance
  let t ← t.transfer src dst amount
  let left := Function.update (t.allowance src) sender (t.allowance src sender - amount)
  .ok { t with allowance := Function.update t.allowance src left }

def approve (t : Token) (sender spender : Address) (amount : Nat) : Token :=
  { t with allowance :=
      Function.update t.allowance sender (Function.update (t.allowance sender) spender amount) }

end Token

-- One vault

structure StakeVault where
  owner : Address
  codehash : Codehash
  lockUntil : Nat
  depositedBalance : Nat
  hasLeft : Bool

namespace StakeVault

def initialized (owner : Address) (codehash : Codehash) : StakeVault :=
  { owner, codehash, lockUntil := 0, depositedBalance := 0, hasLeft := false }

def onlyOwner (vault : StakeVault) (sender : Address) : Except Revert Unit :=
  failIf (sender ≠ vault.owner) .callerIsNotTheOwner

def onlyNotLeft (vault : StakeVault) : Except Revert Unit :=
  failIf (vault.hasLeft = true) (.stakeVault .markedAsLeft)

def validDestination (destination : Address) : Except Revert Unit :=
  failIf (destination = 0) (.stakeVault .invalidDestinationAddress)

def ensureLockUntilValid (vault : StakeVault) (now newLockUntil lockSeconds : Nat) :
    Except Revert Unit := do
  let expectedLockUntil ← add (max vault.lockUntil now) lockSeconds
  failIf (lockSeconds > 0 ∧ newLockUntil ≠ expectedLockUntil) (.stakeVault .invalidLockEnd)

/-- The tokens a vault holds, and how many of them are not its deposit. -/
def totalAndExcess (vault : StakeVault) (totalBalance : Nat) : Nat × Nat :=
  (totalBalance,
    if totalBalance > vault.depositedBalance then totalBalance - vault.depositedBalance else 0)

end StakeVault

-- The vaults, the manager and the token

structure Vaults where
  manager : StakeManager
  token : Token
  vault : Address → Option StakeVault

namespace Vaults

def vaultAt (w : Vaults) (v : Address) : Except Revert StakeVault :=
  match w.vault v with
  | some vault => .ok vault
  | none => .error .noContract

def setVault (w : Vaults) (v : Address) (vault : StakeVault) : Vaults :=
  { w with vault := Function.update w.vault v (some vault) }

/-- The vault as it is seen by its owner's call. -/
def ownedBy (w : Vaults) (sender v : Address) : Except Revert StakeVault := do
  let vault ← w.vaultAt v
  vault.onlyOwner sender
  .ok vault

/-- `createVault` of the factory at `factory`; the clone's address and codehash are given. -/
def createVault (w : Vaults) (now : Nat) (sender factory v : Address) (codehash : Codehash) :
    Except Revert Vaults := do
  let w := w.setVault v (.initialized sender codehash)
  let manager ← w.manager.registerVault ⟨factory, 0, now⟩ v sender codehash
  .ok { w with manager }

def stake (w : Vaults) (now : Nat) (sender v : Address) (amount lockSeconds : Nat)
    (source : Address) : Except Revert Vaults := do
  let vault ← w.ownedBy sender v
  vault.onlyNotLeft
  let depositedBalance ← add vault.depositedBalance amount
  let (manager, newLockUntil) ←
    w.manager.stake ⟨v, vault.codehash, now⟩ amount lockSeconds vault.lockUntil
  vault.ensureLockUntilValid now newLockUntil lockSeconds
  let token ← w.token.transferFrom v source v amount
  .ok { w.setVault v { vault with depositedBalance, lockUntil := newLockUntil } with
    manager, token }

def lock (w : Vaults) (now : Nat) (sender v : Address) (lockSeconds : Nat) :
    Except Revert Vaults := do
  let vault ← w.ownedBy sender v
  vault.onlyNotLeft
  let (manager, newLockUntil) ←
    w.manager.lock ⟨v, vault.codehash, now⟩ lockSeconds vault.lockUntil
  vault.ensureLockUntilValid now newLockUntil lockSeconds
  .ok { w.setVault v { vault with lockUntil := newLockUntil } with manager }

/-- The call without a destination is the one with the sender as destination. -/
def unstake (w : Vaults) (now : Nat) (sender v : Address) (amount : Nat)
    (destination : Address) : Except Revert Vaults := do
  let vault ← w.ownedBy sender v
  StakeVault.validDestination destination
  failIf (vault.lockUntil > now) (.stakeVault .fundsLocked)
  failIf (amount > vault.depositedBalance) (.stakeVault .notEnoughAvailableBalance)
  let depositedBalance ← sub vault.depositedBalance amount
  let manager ← w.manager.unstake ⟨v, vault.codehash, now⟩ amount
  let token ← w.token.transfer v destination amount
  .ok { w.setVault v { vault with depositedBalance } with manager, token }

/-- The manager after the low-level call of `leave()`, which may revert on its own account. -/
def managerLeft (w : Vaults) (msg : Msg) (reverts : Bool) : StakeManager :=
  if reverts then w.manager
  else match w.manager.leave msg with
    | .ok manager => manager
    | .error _ => w.manager

def leave (w : Vaults) (now : Nat) (sender v destination : Address) (reverts : Bool) :
    Except Revert Vaults := do
  let vault ← w.ownedBy sender v
  StakeVault.validDestination destination
  let vault := { vault with hasLeft := true }
  let manager := w.managerLeft ⟨v, vault.codehash, now⟩ reverts
  if vault.lockUntil ≤ now then do
    let token ← w.token.transfer v destination (w.token.balanceOf v)
    .ok { w.setVault v { vault with depositedBalance := 0 } with manager, token }
  else .ok { w.setVault v vault with manager }

/-- `_migrateToVault`, with the call of `migrateFromVault` that the manager makes. -/
def handOver (w : Vaults) (now : Nat) (v : Address) (vault : StakeVault) (migrateTo : Address) :
    Except Revert Vaults := do
  let manager ← w.manager.migrateToVault ⟨v, vault.codehash, now⟩ migrateTo
  let target ← w.vaultAt migrateTo
  let w := w.setVault migrateTo { target with
    lockUntil := vault.lockUntil, depositedBalance := vault.depositedBalance }
  let w := w.setVault v { vault with depositedBalance := 0, lockUntil := 0 }
  let token ← w.token.transfer v migrateTo (w.token.balanceOf v)
  .ok { w with manager, token }

def migrateToVault (w : Vaults) (now : Nat) (sender v migrateTo : Address) :
    Except Revert Vaults := do
  let vault ← w.ownedBy sender v
  vault.onlyNotLeft
  failIf (migrateTo = v) (.stakeVault .invalidMigrationTarget)
  let target ← w.vaultAt migrateTo
  failIf (target.hasLeft = true) (.stakeVault .invalidMigrationTarget)
  failIf (target.owner ≠ vault.owner) (.stakeVault .notAuthorized)
  w.handOver now v vault migrateTo

/-- The factory creates the vault `migrateTo` for the owner the manager has on record. -/
def replaceVault (w : Vaults) (now : Nat) (sender v migrateTo : Address) (codehash : Codehash) :
    Except Revert Vaults := do
  let vault ← w.ownedBy sender v
  vault.onlyNotLeft
  let manager ← w.manager.createMigrationVault ⟨v, vault.codehash, now⟩ migrateTo
  let created := .initialized (w.manager.vaultOwners v) codehash
  let w := { w.setVault migrateTo created with manager }
  w.handOver now v vault migrateTo

def withdraw (w : Vaults) (now : Nat) (sender v : Address) (amount : Nat)
    (destination : Address) : Except Revert Vaults := do
  let vault ← w.ownedBy sender v
  StakeVault.validDestination destination
  let (total, excess) := vault.totalAndExcess (w.token.balanceOf v)
  failIf (amount > total) (.stakeVault .notEnoughAvailableBalance)
  failIf (amount > excess ∧ vault.lockUntil > now) (.stakeVault .fundsLocked)
  failIf (amount > excess ∧ vault.hasLeft = false) (.stakeVault .mustLeaveFirst)
  let depositedBalance ← (if amount > excess then do
      let fromDeposited ← sub amount excess
      sub vault.depositedBalance fromDeposited
    else .ok vault.depositedBalance)
  let token ← w.token.transfer v destination amount
  .ok { w.setVault v { vault with depositedBalance } with token }

def emergencyExit (w : Vaults) (sender v destination : Address) : Except Revert Vaults := do
  let vault ← w.ownedBy sender v
  StakeVault.validDestination destination
  failIf (w.manager.emergencyModeEnabled = false) (.stakeVault .notAllowedToExit)
  let token ← w.token.transfer v destination (w.token.balanceOf v)
  .ok { w.setVault v { vault with depositedBalance := 0 } with token }

-- Runs

inductive Action
  | createVault (factory v : Address) (codehash : Codehash)
  | stake (v : Address) (amount lockSeconds : Nat) (source : Address)
  | lock (v : Address) (lockSeconds : Nat)
  | unstake (v : Address) (amount : Nat) (destination : Address)
  | leave (v destination : Address) (reverts : Bool)
  | migrateToVault (v migrateTo : Address)
  | replaceVault (v migrateTo : Address) (codehash : Codehash)
  | withdraw (v : Address) (amount : Nat) (destination : Address)
  | emergencyExit (v destination : Address)
  | transfer (dst : Address) (amount : Nat)
  | transferFrom (src dst : Address) (amount : Nat)
  | approve (spender : Address) (amount : Nat)
  | manager (codehash : Codehash) (call : StakeManager.Call)

structure Tx where
  sender : Address
  now : Nat
  action : Action

def apply (w : Vaults) (tx : Tx) : Except Revert Vaults :=
  match tx.action with
  | .createVault factory v codehash => w.createVault tx.now tx.sender factory v codehash
  | .stake v amount lockSeconds source => w.stake tx.now tx.sender v amount lockSeconds source
  | .lock v lockSeconds => w.lock tx.now tx.sender v lockSeconds
  | .unstake v amount destination => w.unstake tx.now tx.sender v amount destination
  | .leave v destination reverts => w.leave tx.now tx.sender v destination reverts
  | .migrateToVault v migrateTo => w.migrateToVault tx.now tx.sender v migrateTo
  | .replaceVault v migrateTo codehash => w.replaceVault tx.now tx.sender v migrateTo codehash
  | .withdraw v amount destination => w.withdraw tx.now tx.sender v amount destination
  | .emergencyExit v destination => w.emergencyExit tx.sender v destination
  | .transfer dst amount => (w.token.transfer tx.sender dst amount).map ({ w with token := · })
  | .transferFrom src dst amount =>
    (w.token.transferFrom tx.sender src dst amount).map ({ w with token := · })
  | .approve spender amount => .ok { w with token := w.token.approve tx.sender spender amount }
  | .manager codehash call =>
    (w.manager.call ⟨tx.sender, codehash, tx.now⟩ call).map ({ w with manager := ·.1 })

/-- An address no contract was created at, and nobody can act for. -/
def Unused (w : Vaults) (v : Address) : Prop :=
  v ≠ 0 ∧ w.vault v = none ∧ ∀ spender, w.token.allowance v spender = 0

/-- What the chain guarantees of a transaction, and what is assumed of the run: vaults act only
by their own code, a new contract gets an unused address, only the factory registers vaults,
and emergency mode is not enabled. -/
def Possible (w : Vaults) (tx : Tx) : Prop :=
  tx.sender ≠ 0 ∧ w.vault tx.sender = none ∧
    match tx.action with
    | .createVault _ v _ => w.Unused v
    | .replaceVault _ migrateTo _ => w.Unused migrateTo
    | .manager _ (.registerVault ..) => False
    | .manager _ .enableEmergencyMode => False
    | _ => True

def Initial (w : Vaults) : Prop :=
  (∃ owner maxVaultsPerUser, w.manager = .initialized owner maxVaultsPerUser) ∧
    (∀ v, w.vault v = none)

def Reachable : Vaults → (now : Nat) → Prop :=
  Runs.Reachable Tx.now Initial fun w tx w' => w.Possible tx ∧ w.apply tx = .ok w'

end Vaults

end StatusNetwork.Staking
