import StatusNetwork.Base.BitFlags
import StatusNetwork.Base.Runs
import StatusNetwork.Security.AccessControl

/-!
# The pause manager

Models `PauseManager.sol`. Whoever has the role for a pause type pauses it for a while; the
security council pauses it until it unpauses it.
-/

namespace StatusNetwork.Security

def PAUSE_DURATION : Nat := 48 * 60 * 60

def COOLDOWN_DURATION : Nat := 48 * 60 * 60

def MAX_UINT256 : Nat := 2 ^ 256 - 1

/-- What the numbers of unchecked arithmetic wrap around at. -/
def wrap (n : Nat) : Nat := n % 2 ^ 256

def PauseType.bit : PauseType → Nat
  | .unused => 0
  | .general => 1
  | .l1L2 => 2
  | .l2L1 => 3
  | .blobSubmission => 4
  | .calldataSubmission => 5
  | .finalization => 6
  | .initiateTokenBridging => 7
  | .completeTokenBridging => 8
  | .nativeYieldStaking => 9
  | .nativeYieldUnstaking => 10
  | .nativeYieldPermissionlessActions => 11
  | .nativeYieldReporting => 12
  | .stateDataSubmission => 13

structure PauseManager where
  pauseTypeStatusesBitMap : BitVec 256
  pauseTypeRoles : PauseType → Role
  unPauseTypeRoles : PauseType → Role
  nonSecurityCouncilCooldownEnd : Nat
  pauseTypeExpiryTimestamps : PauseType → Nat

namespace PauseManager

def initialized (pauseTypeRoles unPauseTypeRoles : List (PauseType × Role)) : PauseManager where
  pauseTypeStatusesBitMap := 0#256
  pauseTypeRoles :=
    pauseTypeRoles.foldl (fun roles p => Function.update roles p.1 p.2) fun _ => .defaultAdmin
  unPauseTypeRoles :=
    unPauseTypeRoles.foldl (fun roles p => Function.update roles p.1 p.2) fun _ => .defaultAdmin
  nonSecurityCouncilCooldownEnd := 0
  pauseTypeExpiryTimestamps _ := 0

variable (s : PauseManager)

def isPaused (pauseType : PauseType) : Bool :=
  BitFlags.test s.pauseTypeStatusesBitMap pauseType.bit

def requireTypeAndGeneralNotPaused (pauseType : PauseType) : Except Revert Unit := do
  failIf (BitFlags.test s.pauseTypeStatusesBitMap pauseType.bit) (.isPaused pauseType)
  failIf (BitFlags.test s.pauseTypeStatusesBitMap PauseType.general.bit) (.isPaused .general)

def requireTypeNotPaused (pauseType : PauseType) : Except Revert Unit :=
  failIf (s.isPaused pauseType) (.isPaused pauseType)

def onlyUsedPausedTypes (pauseType : PauseType) : Except Revert Unit :=
  failIf (pauseType = .unused) .pauseTypeNotUsed

def setPaused (pauseType : PauseType) (expiry : Nat) : PauseManager :=
  { s with
    pauseTypeStatusesBitMap := BitFlags.set s.pauseTypeStatusesBitMap pauseType.bit
    pauseTypeExpiryTimestamps := Function.update s.pauseTypeExpiryTimestamps pauseType expiry }

def setUnPaused (pauseType : PauseType) : PauseManager :=
  { s with
    pauseTypeStatusesBitMap := BitFlags.clear s.pauseTypeStatusesBitMap pauseType.bit
    pauseTypeExpiryTimestamps := Function.update s.pauseTypeExpiryTimestamps pauseType 0 }

def pauseByType (roles : Roles) (now : Nat) (sender : Address) (pauseType : PauseType) :
    Except Revert PauseManager := do
  onlyUsedPausedTypes pauseType
  roles.onlyRole (s.pauseTypeRoles pauseType) sender
  let senderHasSecurityCouncilRole := roles.hasRole .securityCouncil sender
  failIf ((s.isPaused pauseType ∧ senderHasSecurityCouncilRole = false) ∨
    s.pauseTypeExpiryTimestamps pauseType = MAX_UINT256) (.isPaused pauseType)
  if senderHasSecurityCouncilRole then .ok (s.setPaused pauseType MAX_UINT256)
  else
    let cooldownEnd := s.nonSecurityCouncilCooldownEnd
    if now ≥ cooldownEnd then
      let expiry := wrap (now + PAUSE_DURATION)
      .ok { s.setPaused pauseType expiry with
        nonSecurityCouncilCooldownEnd := wrap (expiry + COOLDOWN_DURATION) }
    else do
      failIf (cooldownEnd - now ≤ COOLDOWN_DURATION)
        (.pauseUnavailableDueToCooldown cooldownEnd)
      .ok (s.setPaused pauseType (cooldownEnd - COOLDOWN_DURATION))

def resetNonSecurityCouncilCooldownEnd (roles : Roles) (now : Nat) (sender : Address) :
    Except Revert PauseManager := do
  roles.onlyRole .securityCouncil sender
  .ok { s with nonSecurityCouncilCooldownEnd := now }

def unPauseByType (roles : Roles) (sender : Address) (pauseType : PauseType) :
    Except Revert PauseManager := do
  onlyUsedPausedTypes pauseType
  roles.onlyRole (s.unPauseTypeRoles pauseType) sender
  failIf (s.isPaused pauseType = false) (.isNotPaused pauseType)
  failIf (s.pauseTypeExpiryTimestamps pauseType = MAX_UINT256 ∧
    roles.hasRole .securityCouncil sender = false)
    (.onlySecurityCouncilCanUnpauseIndefinitePause pauseType)
  .ok (s.setUnPaused pauseType)

def unPauseByExpiredType (now : Nat) (pauseType : PauseType) : Except Revert PauseManager := do
  onlyUsedPausedTypes pauseType
  failIf (s.isPaused pauseType = false) (.isNotPaused pauseType)
  failIf (now < s.pauseTypeExpiryTimestamps pauseType)
    (.pauseNotExpired (s.pauseTypeExpiryTimestamps pauseType))
  .ok (s.setUnPaused pauseType)

def updatePauseTypeRole (roles : Roles) (sender : Address) (pauseType : PauseType)
    (newRole : Role) : Except Revert PauseManager := do
  onlyUsedPausedTypes pauseType
  roles.onlyRole .securityCouncil sender
  failIf (s.pauseTypeRoles pauseType = newRole) .rolesNotDifferent
  .ok { s with pauseTypeRoles := Function.update s.pauseTypeRoles pauseType newRole }

def updateUnpauseTypeRole (roles : Roles) (sender : Address) (pauseType : PauseType)
    (newRole : Role) : Except Revert PauseManager := do
  onlyUsedPausedTypes pauseType
  roles.onlyRole .securityCouncil sender
  failIf (s.unPauseTypeRoles pauseType = newRole) .rolesNotDifferent
  .ok { s with unPauseTypeRoles := Function.update s.unPauseTypeRoles pauseType newRole }

-- Calls

inductive Call
  | pauseByType (pauseType : PauseType)
  | unPauseByType (pauseType : PauseType)
  | unPauseByExpiredType (pauseType : PauseType)
  | resetNonSecurityCouncilCooldownEnd
  | updatePauseTypeRole (pauseType : PauseType) (newRole : Role)
  | updateUnpauseTypeRole (pauseType : PauseType) (newRole : Role)

def call (roles : Roles) (now : Nat) (sender : Address) : Call → Except Revert PauseManager
  | .pauseByType pauseType => s.pauseByType roles now sender pauseType
  | .unPauseByType pauseType => s.unPauseByType roles sender pauseType
  | .unPauseByExpiredType pauseType => s.unPauseByExpiredType now pauseType
  | .resetNonSecurityCouncilCooldownEnd => s.resetNonSecurityCouncilCooldownEnd roles now sender
  | .updatePauseTypeRole pauseType newRole => s.updatePauseTypeRole roles sender pauseType newRole
  | .updateUnpauseTypeRole pauseType newRole =>
    s.updateUnpauseTypeRole roles sender pauseType newRole

end PauseManager

end StatusNetwork.Security
