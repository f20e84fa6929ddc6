import Mathlib.Logic.Function.Basic
import StatusNetwork.Base.Checked

/-!
# Accounts, roles and errors

Models the parts of `AccessControlUpgradeable.sol` that the contracts of the rollup inherit. Every
role is administered by the default admin role.
-/

namespace StatusNetwork.Security

abbrev Address := BitVec 160

inductive Role
  | defaultAdmin
  | securityCouncil
  | rateLimitSetter
  | usedRateLimitResetter
  /-- A role named by any other hash. -/
  | named (hash : BitVec 256)
  deriving DecidableEq

inductive PauseType
  | unused
  | general
  | l1L2
  | l2L1
  | blobSubmission
  | calldataSubmission
  | finalization
  | initiateTokenBridging
  | completeTokenBridging
  | nativeYieldStaking
  | nativeYieldUnstaking
  | nativeYieldPermissionlessActions
  | nativeYieldReporting
  | stateDataSubmission
  deriving DecidableEq

inductive Revert
  | missingRole (account : Address) (role : Role)
  | renounceForOthers
  | pauseTypeNotUsed
  | isPaused (pauseType : PauseType)
  | isNotPaused (pauseType : PauseType)
  | pauseNotExpired (expiry : Nat)
  | pauseUnavailableDueToCooldown (cooldownEnd : Nat)
  | onlySecurityCouncilCanUnpauseIndefinitePause (pauseType : PauseType)
  | rolesNotDifferent
  | periodIsZero
  | limitIsZero
  | rateLimitExceeded
  | arithmetic (e : Checked.ArithError)
  deriving DecidableEq

structure Roles where
  hasRole : Role → Address → Bool

namespace Roles

variable (r : Roles)

def onlyRole (role : Role) (sender : Address) : Except Revert Unit :=
  failIf (r.hasRole role sender = false) (.missingRole sender role)

def setRole (role : Role) (account : Address) (granted : Bool) : Roles where
  hasRole := Function.update r.hasRole role (Function.update (r.hasRole role) account granted)

def grantRole (sender : Address) (role : Role) (account : Address) : Except Revert Roles := do
  r.onlyRole .defaultAdmin sender
  .ok (r.setRole role account true)

def revokeRole (sender : Address) (role : Role) (account : Address) : Except Revert Roles := do
  r.onlyRole .defaultAdmin sender
  .ok (r.setRole role account false)

def renounceRole (sender : Address) (role : Role) (account : Address) : Except Revert Roles := do
  failIf (account ≠ sender) .renounceForOthers
  .ok (r.setRole role account false)

/-- `__Permissions_init` of a contract with these errors. -/
def permissionsInit (zeroAddressNotAllowed zeroHashNotAllowed : ε)
    (roleAddresses : List (Role × Address)) : Except ε Roles :=
  roleAddresses.foldlM (fun roles (role, account) => do
    failIf (account = 0) zeroAddressNotAllowed
    failIf (role = .defaultAdmin) zeroHashNotAllowed
    .ok (roles.setRole role account true)) r

end Roles

end StatusNetwork.Security
