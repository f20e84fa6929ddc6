import StatusNetwork.Base.Registry
import StatusNetwork.Messaging.Message

/-!
# The yield manager

Models `YieldManager.sol` with its storage layout. The yield providers are called by `delegatecall`:
what they answer is an argument, they move exactly the ETH asked for, and of the storage they change
only the liability for liquid staking tokens. `reserve` is the balance of the L1 message service. A
function that sends ETH to the reserve returns the amount with the new state; the calls of the
message service are made where the two contracts are put together.
-/

namespace StatusNetwork.Yield

open Security (Address Role Pausing PauseType)
open Messaging (Env)

-- Constants

def YIELD_PROVIDER_STAKING_ROLE : Role :=
  .named 0x220bd22ef7c53d75fe3eac0a09e90815a0c5ba4f9e8da8b039542cd3db347258

def YIELD_PROVIDER_UNSTAKER_ROLE : Role :=
  .named 0x1208ee08ba851b41059d729bfba4fffc3a98c2b6d121e3cf0db274417dea3d70

def YIELD_REPORTER_ROLE : Role :=
  .named 0xa980ae8105ebca8c4bda1143caefa4ff96b61271718a11b7239cdb9eabfc7e27

def STAKING_PAUSE_CONTROLLER_ROLE : Role :=
  .named 0xb05f5f3bc6b24add2de79f85477c2f0351f8e8a2209394f90c9e1c6c7e540c79

def OSSIFICATION_INITIATOR_ROLE : Role :=
  .named 0x9b6f6cc60cc992c1b2dbfe3564c7159c78b4c15a858781972f9be245ab0a7962

def OSSIFICATION_PROCESSOR_ROLE : Role :=
  .named 0x9ef55ee0235bd9abf16b2b7865531896bd633b74155b6c1d064d0402f2d1b3c8

def WITHDRAWAL_RESERVE_SETTER_ROLE : Role :=
  .named 0x58cd6cd2c63b9e5685aee547419caac3d1184e3aeb3ed7c8b63ec61cda1e27e0

def SET_YIELD_PROVIDER_ROLE : Role :=
  .named 0x4bfab1661ce1ffeb4b53fc15e3fd6e7ae742e97d90ba229951fcc314e10f05d9

def SET_L2_YIELD_RECIPIENT_ROLE : Role :=
  .named 0xedd66f6e9b5c4d0e97b7d84abd332823333b4210446a6cb917983caefd083143

def MAX_BPS : Nat := 10000

def SLOTS_PER_HISTORICAL_ROOT : Nat := 8192

inductive Revert
  | security (e : Security.Revert)
  | arithmetic (e : Checked.ArithError)
  | zeroAddressNotAllowed
  | zeroHashNotAllowed
  | delegateCallFailed
  | unknownYieldProvider
  | unknownL2YieldRecipient
  | senderNotL1MessageService
  | insufficientWithdrawalReserve
  | withdrawalReserveNotInDeficit
  | slotTooCloseToLastProvenSlot (validatorIndex lastProvenSlot slot : Nat)
  | noRequirementToUnstakePermissionless
  | yieldProviderReturnedZeroUnstakeAmount
  | unstakedAmountExceedsRequired (unstakedAmountWei requiredUnstakeAmountWei : Nat)
  | noAvailableFundsToReplenishWithdrawalReserve
  | stakingAlreadyPaused
  | stakingAlreadyUnpaused
  | unpauseStakingForbiddenWithCurrentLSTLiability
  | unpauseStakingForbiddenDuringPendingOssification
  | lstWithdrawalNotAllowed
  | lstWithdrawalExceedsYieldProviderFunds
  | ossificationNotInitiated
  | ossificationAlreadyInitiated
  | alreadyOssified
  | yieldProviderAlreadyAdded
  | yieldProviderHasRemainingFunds (remainingUserFunds : Nat)
  | l2YieldRecipientAlreadyAdded
  | bpsMoreThan10000
  | targetReservePercentageMustBeAboveMinimum
  | targetReserveAmountMustBeAboveMinimum
  | insufficientBalance
  | noEthSent
  | outOfBounds
  deriving DecidableEq

abbrev add := Checked.add Revert.arithmetic

abbrev sub := Checked.sub Revert.arithmetic

-- Storage

inductive YieldProviderVendor
  | unused
  | lidoStVault
  deriving DecidableEq

inductive ProgressOssificationResult
  | reinitiated
  | noop
  | complete
  deriving DecidableEq

structure YieldProviderRegistration where
  yieldProviderVendor : YieldProviderVendor
  primaryEntrypoint : Address
  ossifiedEntrypoint : Address
  usersFundsIncrement : Nat

structure YieldProviderStorage where
  yieldProviderVendor : YieldProviderVendor
  isStakingPaused : Bool
  isOssificationInitiated : Bool
  isOssified : Bool
  primaryEntrypoint : Address
  ossifiedEntrypoint : Address
  yieldProviderIndex : Nat
  userFunds : Nat
  yieldReportedCumulative : Nat
  lstLiabilityPrincipal : Nat
  lastReportedNegativeYield : Nat

def YieldProviderStorage.empty : YieldProviderStorage where
  yieldProviderVendor := .unused
  isStakingPaused := false
  isOssificationInitiated := false
  isOssified := false
  primaryEntrypoint := 0
  ossifiedEntrypoint := 0
  yieldProviderIndex := 0
  userFunds := 0
  yieldReportedCumulative := 0
  lstLiabilityPrincipal := 0
  lastReportedNegativeYield := 0

structure UpdateReserveParametersConfig where
  minimumWithdrawalReservePercentageBps : Nat
  targetWithdrawalReservePercentageBps : Nat
  minimumWithdrawalReserveAmount : Nat
  targetWithdrawalReserveAmount : Nat

structure YieldManager extends UpdateReserveParametersConfig where
  self : Address
  l1MessageService : Address
  security : Pausing
  balance : Nat
  userFundsInYieldProvidersTotal : Nat
  pendingPermissionlessUnstake : Nat
  yieldProviders : List Address
  isL2YieldRecipientKnown : Address → Bool
  yieldProviderStorage : Address → YieldProviderStorage
  lastProvenSlot : Nat → Nat

structure YieldManagerInitializationData extends UpdateReserveParametersConfig where
  pauseTypeRoles : List (PauseType × Role)
  unpauseTypeRoles : List (PauseType × Role)
  roleAddresses : List (Role × Address)
  initialL2YieldRecipients : List Address
  defaultAdmin : Address

-- Yield providers

inductive ProviderCall
  | withdrawableValue
  | fundYieldProvider
  | reportYield
  | unstake
  | unstakePermissionless
  | beforeWithdrawFromYieldProvider
  | withdrawFromYieldProvider
  | pauseStaking
  | unpauseStaking
  | syncLSTLiabilityPrincipal
  | withdrawLST
  | initiateOssification
  | progressPendingOssification
  | initializeVendorContracts
  | exitVendorContracts
  deriving DecidableEq

/-- What the yield provider does in a transaction, which calls each function once at most: whether
the function succeeds, the liability it leaves, and what the functions return. -/
structure ProviderEnv where
  succeeds : ProviderCall → Bool
  lstLiabilityPrincipal : ProviderCall → Nat
  withdrawableValue : Nat
  newReportedYield : Nat
  outstandingNegativeYield : Nat
  unstakedAmountWei : Nat
  progressOssificationResult : ProgressOssificationResult
  registrationData : YieldProviderRegistration

namespace YieldManager

def revertIfZeroAddress (account : Address) : Except Revert Unit :=
  failIf (account = 0) .zeroAddressNotAllowed

def _setWithdrawalReserveParameters (s : YieldManager) (params : UpdateReserveParametersConfig) :
    Except Revert YieldManager := do
  failIf (params.minimumWithdrawalReservePercentageBps > MAX_BPS ∨
    params.targetWithdrawalReservePercentageBps > MAX_BPS) .bpsMoreThan10000
  failIf (params.targetWithdrawalReservePercentageBps ≤
    params.minimumWithdrawalReservePercentageBps) .targetReservePercentageMustBeAboveMinimum
  failIf (params.targetWithdrawalReserveAmount ≤ params.minimumWithdrawalReserveAmount)
    .targetReserveAmountMustBeAboveMinimum
  .ok { s with toUpdateReserveParametersConfig := params }

def initialized (self l1MessageService : Address) (balance : Nat)
    (data : YieldManagerInitializationData) : Except Revert YieldManager := do
  revertIfZeroAddress l1MessageService
  revertIfZeroAddress data.defaultAdmin
  let admin := Security.Roles.setRole ⟨fun _ _ => false⟩ .defaultAdmin data.defaultAdmin true
  let roles ← admin.permissionsInit .zeroAddressNotAllowed .zeroHashNotAllowed data.roleAddresses
  let s : YieldManager := {
    minimumWithdrawalReservePercentageBps := 0
    targetWithdrawalReservePercentageBps := 0
    minimumWithdrawalReserveAmount := 0
    targetWithdrawalReserveAmount := 0
    self
    l1MessageService
    security := ⟨roles, .initialized data.pauseTypeRoles data.unpauseTypeRoles⟩
    balance
    userFundsInYieldProvidersTotal := 0
    pendingPermissionlessUnstake := 0
    yieldProviders := []
    isL2YieldRecipientKnown := fun _ => false
    yieldProviderStorage := fun _ => .empty
    lastProvenSlot := fun _ => 0 }
  let s ← s._setWithdrawalReserveParameters data.toUpdateReserveParametersConfig
  let isL2YieldRecipientKnown ← data.initialL2YieldRecipients.foldlM
    (fun known l2YieldRecipient => do
      revertIfZeroAddress l2YieldRecipient
      .ok (Function.update known l2YieldRecipient true)) s.isL2YieldRecipientKnown
  .ok { s with isL2YieldRecipientKnown, yieldProviders := [0] }

variable (s : YieldManager) (reserve : Nat) (e : Env) (p : ProviderEnv)

def onlyRole (role : Role) : Except Revert Unit :=
  (s.security.roles.onlyRole role e.sender).mapError .security

def whenTypeAndGeneralNotPaused (pauseType : PauseType) : Except Revert Unit :=
  (s.security.manager.requireTypeAndGeneralNotPaused pauseType).mapError .security

def onlyL1MessageService : Except Revert Unit :=
  failIf (e.sender ≠ s.l1MessageService) .senderNotL1MessageService

def isYieldProviderKnown (yieldProvider : Address) : Prop :=
  (s.yieldProviderStorage yieldProvider).yieldProviderIndex ≠ 0

instance (yieldProvider : Address) : Decidable (s.isYieldProviderKnown yieldProvider) :=
  inferInstanceAs (Decidable (_ ≠ _))

def onlyKnownYieldProvider (yieldProvider : Address) : Except Revert Unit :=
  failIf (¬ s.isYieldProviderKnown yieldProvider) .unknownYieldProvider

def onlyKnownL2YieldRecipient (l2YieldRecipient : Address) : Except Revert Unit :=
  failIf (s.isL2YieldRecipientKnown l2YieldRecipient = false) .unknownL2YieldRecipient

-- The withdrawal reserve

def _getTotalSystemBalance (amountToSubtract : Nat) : Except Revert Nat := do
  let held ← add reserve s.balance
  let total ← add held s.userFundsInYieldProvidersTotal
  sub total amountToSubtract

/-- An effective reserve: a share of the total system balance, but not less than the amount. -/
def effectiveReserve (percentageBps amount amountToSubtract : Nat) : Except Revert Nat := do
  let totalSystemBalance ← s._getTotalSystemBalance reserve amountToSubtract
  let scaled ← Checked.mul .arithmetic totalSystemBalance percentageBps
  .ok (max (scaled / MAX_BPS) amount)

def _getEffectiveMinimumWithdrawalReserve (amountToSubtract : Nat) : Except Revert Nat :=
  s.effectiveReserve reserve s.minimumWithdrawalReservePercentageBps
    s.minimumWithdrawalReserveAmount amountToSubtract

def _getEffectiveTargetWithdrawalReserve (amountToSubtract : Nat) : Except Revert Nat :=
  s.effectiveReserve reserve s.targetWithdrawalReservePercentageBps
    s.targetWithdrawalReserveAmount amountToSubtract

def _getTargetReserveDeficit (amountToSubtract : Nat) : Except Revert Nat := do
  let targetWithdrawalReserve ← s._getEffectiveTargetWithdrawalReserve reserve amountToSubtract
  .ok (targetWithdrawalReserve - reserve)

def _isWithdrawalReserveBelowMinimum (amountToSubtract : Nat) : Except Revert Bool := do
  let minimumWithdrawalReserve ← s._getEffectiveMinimumWithdrawalReserve reserve amountToSubtract
  .ok (reserve < minimumWithdrawalReserve)

def onlyWhenWithdrawalReserveHealthy : Except Revert Unit := do
  let below ← s._isWithdrawalReserveBelowMinimum reserve 0
  failIf below .insufficientWithdrawalReserve

def onlyWhenWithdrawalReserveInDeficit (amountToSubtract : Nat) : Except Revert Unit := do
  let below ← s._isWithdrawalReserveBelowMinimum reserve amountToSubtract
  failIf (below = false) .withdrawalReserveNotInDeficit

-- ETH and yield providers

/-- A function that is called with ETH has it from the start. -/
def credit (amount : Nat) : YieldManager := { s with balance := s.balance + amount }

/-- ETH leaves the contract with a call. -/
def debit (amount : Nat) : Except Revert YieldManager := do
  failIf (s.balance < amount) .insufficientBalance
  .ok { s with balance := s.balance - amount }

/-- `receive()`, for donations and withdrawals from a yield provider. -/
def receiveEther (amount : Nat) : YieldManager :=
  { s.credit amount with
    pendingPermissionlessUnstake := s.pendingPermissionlessUnstake - amount }

def updateProvider (yieldProvider : Address) (f : YieldProviderStorage → YieldProviderStorage) :
    YieldManager :=
  { s with
    yieldProviderStorage := Function.update s.yieldProviderStorage yieldProvider
      (f (s.yieldProviderStorage yieldProvider)) }

/-- `_delegatecallYieldProvider`, apart from the ETH it moves. -/
def _delegatecallYieldProvider (yieldProvider : Address) (call : ProviderCall) :
    Except Revert YieldManager := do
  failIf (p.succeeds call = false) .delegateCallFailed
  .ok (s.updateProvider yieldProvider fun data =>
    { data with lstLiabilityPrincipal := p.lstLiabilityPrincipal call })

/-- The message service refuses to be funded with nothing. -/
def _fundReserve (amount : Nat) : Except Revert (YieldManager × Nat) := do
  let s ← s.debit amount
  failIf (amount = 0) .noEthSent
  .ok (s, amount)

def withdrawableValue (yieldProvider : Address) : Except Revert (YieldManager × Nat) := do
  s.onlyKnownYieldProvider yieldProvider
  let s ← s._delegatecallYieldProvider p yieldProvider .withdrawableValue
  .ok (s, min p.withdrawableValue (s.yieldProviderStorage yieldProvider).userFunds)

def _pauseStaking (yieldProvider : Address) : Except Revert YieldManager := do
  let s ← s._delegatecallYieldProvider p yieldProvider .pauseStaking
  .ok (s.updateProvider yieldProvider fun data => { data with isStakingPaused := true })

def _pauseStakingIfNotAlready (yieldProvider : Address) : Except Revert YieldManager :=
  if (s.yieldProviderStorage yieldProvider).isStakingPaused then .ok s
  else s._pauseStaking p yieldProvider

def increaseUserFunds (yieldProvider : Address) (amount : Nat) : Except Revert YieldManager := do
  let total ← add s.userFundsInYieldProvidersTotal amount
  let userFunds ← add (s.yieldProviderStorage yieldProvider).userFunds amount
  .ok { s.updateProvider yieldProvider fun data => { data with userFunds } with
    userFundsInYieldProvidersTotal := total }

def decreaseUserFunds (yieldProvider : Address) (amount : Nat) : Except Revert YieldManager := do
  let userFunds ← sub (s.yieldProviderStorage yieldProvider).userFunds amount
  let total ← sub s.userFundsInYieldProvidersTotal amount
  .ok { s.updateProvider yieldProvider fun data => { data with userFunds } with
    userFundsInYieldProvidersTotal := total }

def _delegatecallWithdrawFromYieldProvider (yieldProvider : Address) (amount : Nat) :
    Except Revert YieldManager :=
  if amount = 0 then .ok s
  else do
    let s ← s._delegatecallYieldProvider p yieldProvider .withdrawFromYieldProvider
    (s.receiveEther amount).decreaseUserFunds yieldProvider amount

-- Staking

/-- Called by the message service with ETH of the reserve. -/
def receiveFundsFromReserve : Except Revert YieldManager := do
  let s := s.credit e.value
  s.onlyL1MessageService e
  s.onlyWhenWithdrawalReserveHealthy reserve
  .ok s

def transferFundsToReserve (amount : Nat) : Except Revert (YieldManager × Nat) := do
  s.whenTypeAndGeneralNotPaused .nativeYieldUnstaking
  s.onlyRole e YIELD_PROVIDER_UNSTAKER_ROLE
  s._fundReserve amount

def fundYieldProvider (yieldProvider : Address) (amount : Nat) : Except Revert YieldManager := do
  s.whenTypeAndGeneralNotPaused .nativeYieldStaking
  s.onlyKnownYieldProvider yieldProvider
  s.onlyRole e YIELD_PROVIDER_STAKING_ROLE
  s.onlyWhenWithdrawalReserveHealthy reserve
  let targetDeficit ← s._getTargetReserveDeficit reserve 0
  let s ← (if targetDeficit > 0 then s._pauseStakingIfNotAlready p yieldProvider else .ok s)
  let s ← s._delegatecallYieldProvider p yieldProvider .fundYieldProvider
  let s ← s.debit amount
  s.increaseUserFunds yieldProvider amount

/-- Returns the yield that is then reported to the message service. -/
def reportYield (yieldProvider l2YieldRecipient : Address) :
    Except Revert (YieldManager × Nat) := do
  s.whenTypeAndGeneralNotPaused .nativeYieldReporting
  s.onlyKnownYieldProvider yieldProvider
  s.onlyKnownL2YieldRecipient l2YieldRecipient
  s.onlyRole e YIELD_REPORTER_ROLE
  let s ← s._delegatecallYieldProvider p yieldProvider .reportYield
  let s ← s.increaseUserFunds yieldProvider p.newReportedYield
  let yieldReportedCumulative ←
    add (s.yieldProviderStorage yieldProvider).yieldReportedCumulative p.newReportedYield
  .ok (s.updateProvider yieldProvider fun data => { data with
    yieldReportedCumulative
    lastReportedNegativeYield := p.outstandingNegativeYield }, p.newReportedYield)

-- Unstaking

/-- The ETH it is called with pays for the withdrawal requests. -/
def unstake (yieldProvider : Address) : Except Revert YieldManager := do
  let s := s.credit e.value
  s.whenTypeAndGeneralNotPaused .nativeYieldUnstaking
  s.onlyKnownYieldProvider yieldProvider
  s.onlyRole e YIELD_PROVIDER_UNSTAKER_ROLE
  let s ← s._delegatecallYieldProvider p yieldProvider .unstake
  s.debit e.value

def _validateAndUpdateLastProvenSlot (validatorIndex slot : Nat) : Except Revert YieldManager := do
  let lastProvenSlot := s.lastProvenSlot validatorIndex
  -- the sum has 64 bits
  failIf (2 ^ 64 ≤ lastProvenSlot + SLOTS_PER_HISTORICAL_ROOT) (.arithmetic .overflow)
  failIf (slot ≤ lastProvenSlot + SLOTS_PER_HISTORICAL_ROOT)
    (.slotTooCloseToLastProvenSlot validatorIndex lastProvenSlot slot)
  .ok { s with lastProvenSlot := Function.update s.lastProvenSlot validatorIndex slot }

def unstakePermissionless (yieldProvider : Address) (validatorIndex slot : Nat) :
    Except Revert YieldManager := do
  let s := s.credit e.value
  s.whenTypeAndGeneralNotPaused .nativeYieldPermissionlessActions
  s.onlyKnownYieldProvider yieldProvider
  s.onlyWhenWithdrawalReserveInDeficit reserve e.value
  let s ← s._validateAndUpdateLastProvenSlot validatorIndex slot
  let targetDeficit ← s._getTargetReserveDeficit reserve e.value
  let own ← sub s.balance e.value
  let (s, withdrawable) ← s.withdrawableValue p yieldProvider
  let available ← add own withdrawable
  let available ← add available s.pendingPermissionlessUnstake
  let requiredUnstakeAmountWei := targetDeficit - available
  failIf (requiredUnstakeAmountWei = 0) .noRequirementToUnstakePermissionless
  let s ← s._delegatecallYieldProvider p yieldProvider .unstakePermissionless
  let s ← s.debit e.value
  failIf (p.unstakedAmountWei = 0) .yieldProviderReturnedZeroUnstakeAmount
  failIf (p.unstakedAmountWei > requiredUnstakeAmountWei)
    (.unstakedAmountExceedsRequired p.unstakedAmountWei requiredUnstakeAmountWei)
  let pendingPermissionlessUnstake ← add s.pendingPermissionlessUnstake p.unstakedAmountWei
  .ok { s with pendingPermissionlessUnstake }

def _withdrawFromYieldProvider (yieldProvider : Address) (amount : Nat) :
    Except Revert (YieldManager × Nat) := do
  let targetDeficit ← s._getTargetReserveDeficit reserve 0
  let s ← s._delegatecallWithdrawFromYieldProvider p yieldProvider amount
  let toReserve := min amount targetDeficit
  let (s, toReserve) ← (if toReserve > 0 then s._fundReserve toReserve else .ok (s, toReserve))
  let s ← (
    if targetDeficit > toReserve then s._pauseStakingIfNotAlready p yieldProvider else .ok s)
  .ok (s, toReserve)

def safeWithdrawFromYieldProvider (yieldProvider : Address) (amount : Nat) :
    Except Revert (YieldManager × Nat) := do
  s.whenTypeAndGeneralNotPaused .nativeYieldUnstaking
  s.onlyKnownYieldProvider yieldProvider
  s.onlyRole e YIELD_PROVIDER_UNSTAKER_ROLE
  let s ← s._delegatecallYieldProvider p yieldProvider .beforeWithdrawFromYieldProvider
  let (s, withdrawable) ← s.withdrawableValue p yieldProvider
  s._withdrawFromYieldProvider reserve p yieldProvider (min withdrawable amount)

def _addToWithdrawalReserve (yieldProvider : Address) (amount : Nat) :
    Except Revert (YieldManager × Nat) := do
  let targetDeficit ← s._getTargetReserveDeficit reserve 0
  let s ← (
    if targetDeficit > amount then s._pauseStakingIfNotAlready p yieldProvider else .ok s)
  let yieldManagerBalance := s.balance
  if yieldManagerBalance ≥ amount then s._fundReserve amount
  else
    let withdrawRequestAmount := amount - yieldManagerBalance
    let s ← s._delegatecallWithdrawFromYieldProvider p yieldProvider withdrawRequestAmount
    s._fundReserve amount

def safeAddToWithdrawalReserve (yieldProvider : Address) (amount : Nat) :
    Except Revert (YieldManager × Nat) := do
  s.whenTypeAndGeneralNotPaused .nativeYieldUnstaking
  s.onlyKnownYieldProvider yieldProvider
  s.onlyRole e YIELD_PROVIDER_UNSTAKER_ROLE
  let s ← s._delegatecallYieldProvider p yieldProvider .beforeWithdrawFromYieldProvider
  let (s, withdrawable) ← s.withdrawableValue p yieldProvider
  let available ← add withdrawable s.balance
  s._addToWithdrawalReserve reserve p yieldProvider (min available amount)

def replenishWithdrawalReserve (yieldProvider : Address) : Except Revert (YieldManager × Nat) := do
  s.whenTypeAndGeneralNotPaused .nativeYieldPermissionlessActions
  s.onlyKnownYieldProvider yieldProvider
  s.onlyWhenWithdrawalReserveInDeficit reserve 0
  let targetDeficit ← s._getTargetReserveDeficit reserve 0
  let yieldManagerBalance := s.balance
  if yieldManagerBalance ≥ targetDeficit then s._fundReserve targetDeficit
  else
    let s ← s._delegatecallYieldProvider p yieldProvider .beforeWithdrawFromYieldProvider
    let (s, yieldProviderBalance) ← s.withdrawableValue p yieldProvider
    failIf (yieldProviderBalance = 0 ∧ yieldManagerBalance = 0)
      .noAvailableFundsToReplenishWithdrawalReserve
    let withdrawAmount := min yieldProviderBalance (targetDeficit - yieldManagerBalance)
    let s ← s._delegatecallWithdrawFromYieldProvider p yieldProvider withdrawAmount
    let (s, funded) ← s._fundReserve (yieldManagerBalance + withdrawAmount)
    let s ← (
      if targetDeficit - yieldManagerBalance > yieldProviderBalance then
        s._pauseStakingIfNotAlready p yieldProvider
      else .ok s)
    .ok (s, funded)

-- Pausing, liquid staking tokens and ossification

def pauseStaking (yieldProvider : Address) : Except Revert YieldManager := do
  s.onlyKnownYieldProvider yieldProvider
  s.onlyRole e STAKING_PAUSE_CONTROLLER_ROLE
  failIf (s.yieldProviderStorage yieldProvider).isStakingPaused .stakingAlreadyPaused
  s._pauseStaking p yieldProvider

def unpauseStaking (yieldProvider : Address) : Except Revert YieldManager := do
  s.onlyKnownYieldProvider yieldProvider
  s.onlyRole e STAKING_PAUSE_CONTROLLER_ROLE
  s.onlyWhenWithdrawalReserveHealthy reserve
  failIf ((s.yieldProviderStorage yieldProvider).isStakingPaused = false)
    .stakingAlreadyUnpaused
  let s ← s._delegatecallYieldProvider p yieldProvider .syncLSTLiabilityPrincipal
  let data := s.yieldProviderStorage yieldProvider
  failIf (data.lstLiabilityPrincipal > 0) .unpauseStakingForbiddenWithCurrentLSTLiability
  failIf (data.isOssificationInitiated ∧ ¬ data.isOssified)
    .unpauseStakingForbiddenDuringPendingOssification
  let s ← s._delegatecallYieldProvider p yieldProvider .unpauseStaking
  .ok (s.updateProvider yieldProvider fun data => { data with isStakingPaused := false })

/-- `isWithdrawLSTAllowed` is the answer of the message service. -/
def withdrawLST (isWithdrawLSTAllowed : Bool) (yieldProvider : Address) (amount : Nat) :
    Except Revert YieldManager := do
  s.whenTypeAndGeneralNotPaused .nativeYieldPermissionlessActions
  s.onlyKnownYieldProvider yieldProvider
  s.onlyL1MessageService e
  failIf (isWithdrawLSTAllowed = false) .lstWithdrawalNotAllowed
  let data := s.yieldProviderStorage yieldProvider
  let needed ← add amount data.lastReportedNegativeYield
  failIf (needed > data.userFunds) .lstWithdrawalExceedsYieldProviderFunds
  let s ← s._pauseStakingIfNotAlready p yieldProvider
  let s ← s._delegatecallYieldProvider p yieldProvider .withdrawLST
  let s ← s.decreaseUserFunds yieldProvider amount
  let lstLiabilityPrincipal ←
    add (s.yieldProviderStorage yieldProvider).lstLiabilityPrincipal amount
  .ok (s.updateProvider yieldProvider fun data => { data with lstLiabilityPrincipal })

def initiateOssification (yieldProvider : Address) : Except Revert YieldManager := do
  s.onlyKnownYieldProvider yieldProvider
  s.onlyRole e OSSIFICATION_INITIATOR_ROLE
  failIf (s.yieldProviderStorage yieldProvider).isOssificationInitiated
    .ossificationAlreadyInitiated
  failIf (s.yieldProviderStorage yieldProvider).isOssified .alreadyOssified
  let s ← s._delegatecallYieldProvider p yieldProvider .initiateOssification
  let s ← s._pauseStakingIfNotAlready p yieldProvider
  .ok (s.updateProvider yieldProvider fun data => { data with isOssificationInitiated := true })

def progressPendingOssification (yieldProvider : Address) : Except Revert YieldManager := do
  s.onlyKnownYieldProvider yieldProvider
  s.onlyRole e OSSIFICATION_PROCESSOR_ROLE
  failIf ((s.yieldProviderStorage yieldProvider).isOssificationInitiated = false)
    .ossificationNotInitiated
  failIf (s.yieldProviderStorage yieldProvider).isOssified .alreadyOssified
  let s ← s._delegatecallYieldProvider p yieldProvider .progressPendingOssification
  .ok (
    if p.progressOssificationResult = .complete then
      s.updateProvider yieldProvider fun data => { data with isOssified := true }
    else s)

-- Administration

/-- The provider takes the ETH by which it raises the funds of the users. -/
def addYieldProvider (yieldProvider : Address) : Except Revert YieldManager := do
  s.onlyRole e SET_YIELD_PROVIDER_ROLE
  revertIfZeroAddress yieldProvider
  failIf (s.isYieldProviderKnown yieldProvider) .yieldProviderAlreadyAdded
  let s ← s._delegatecallYieldProvider p yieldProvider .initializeVendorContracts
  let registrationData := p.registrationData
  let s ← s.debit registrationData.usersFundsIncrement
  let total ← add s.userFundsInYieldProvidersTotal registrationData.usersFundsIncrement
  .ok { s with
    yieldProviders := s.yieldProviders ++ [yieldProvider]
    yieldProviderStorage := Function.update s.yieldProviderStorage yieldProvider {
      yieldProviderVendor := registrationData.yieldProviderVendor
      isStakingPaused := false
      isOssificationInitiated := false
      isOssified := false
      primaryEntrypoint := registrationData.primaryEntrypoint
      ossifiedEntrypoint := registrationData.ossifiedEntrypoint
      -- the index has 96 bits
      yieldProviderIndex := s.yieldProviders.length % 2 ^ 96
      userFunds := registrationData.usersFundsIncrement
      yieldReportedCumulative := 0
      lstLiabilityPrincipal := 0
      lastReportedNegativeYield := 0 }
    userFundsInYieldProvidersTotal := total }

def _removeYieldProvider (yieldProvider : Address) (userFunds : Nat) :
    Except Revert YieldManager := do
  let s ← s._delegatecallYieldProvider p yieldProvider .exitVendorContracts
  let total ← sub s.userFundsInYieldProvidersTotal userFunds
  let yieldProviderIndex := (s.yieldProviderStorage yieldProvider).yieldProviderIndex
  failIf (s.yieldProviders.length ≤ yieldProviderIndex) .outOfBounds
  match s.yieldProviders.getLast? with
  | none => .error (.arithmetic .overflow)
  | some lastYieldProvider =>
    let s := s.updateProvider lastYieldProvider fun data => { data with yieldProviderIndex }
    .ok { s.updateProvider yieldProvider fun _ => .empty with
      userFundsInYieldProvidersTotal := total
      yieldProviders := Registry.remove s.yieldProviders yieldProviderIndex lastYieldProvider }

def removeYieldProvider (yieldProvider : Address) : Except Revert YieldManager := do
  s.onlyKnownYieldProvider yieldProvider
  s.onlyRole e SET_YIELD_PROVIDER_ROLE
  let userFunds := (s.yieldProviderStorage yieldProvider).userFunds
  failIf (userFunds ≠ 0) (.yieldProviderHasRemainingFunds userFunds)
  s._removeYieldProvider p yieldProvider userFunds

def emergencyRemoveYieldProvider (yieldProvider : Address) : Except Revert YieldManager := do
  s.onlyKnownYieldProvider yieldProvider
  s.onlyRole e SET_YIELD_PROVIDER_ROLE
  s._removeYieldProvider p yieldProvider (s.yieldProviderStorage yieldProvider).userFunds

def addL2YieldRecipient (l2YieldRecipient : Address) : Except Revert YieldManager := do
  s.onlyRole e SET_L2_YIELD_RECIPIENT_ROLE
  revertIfZeroAddress l2YieldRecipient
  failIf (s.isL2YieldRecipientKnown l2YieldRecipient) .l2YieldRecipientAlreadyAdded
  .ok { s with
    isL2YieldRecipientKnown := Function.update s.isL2YieldRecipientKnown l2YieldRecipient true }

def removeL2YieldRecipient (l2YieldRecipient : Address) : Except Revert YieldManager := do
  s.onlyKnownL2YieldRecipient l2YieldRecipient
  s.onlyRole e SET_L2_YIELD_RECIPIENT_ROLE
  .ok { s with
    isL2YieldRecipientKnown := Function.update s.isL2YieldRecipientKnown l2YieldRecipient false }

def setWithdrawalReserveParameters (params : UpdateReserveParametersConfig) :
    Except Revert YieldManager := do
  s.onlyRole e WITHDRAWAL_RESERVE_SETTER_ROLE
  s._setWithdrawalReserveParameters params

def secure (action : Pausing.Action) : Except Revert YieldManager :=
  ((s.security.apply ⟨e.sender, e.now, e.now_lt, action⟩).mapError .security).map fun security =>
    { s with security }

-- Calls

/-- The calls apart from `reportYield`, which returns the yield to report. -/
inductive Call
  | secure (action : Pausing.Action)
  | receiveEther
  | receiveFundsFromReserve
  | transferFundsToReserve (amount : Nat)
  | fundYieldProvider (yieldProvider : Address) (amount : Nat)
  | unstake (yieldProvider : Address)
  | unstakePermissionless (yieldProvider : Address) (validatorIndex slot : Nat)
  | safeWithdrawFromYieldProvider (yieldProvider : Address) (amount : Nat)
  | safeAddToWithdrawalReserve (yieldProvider : Address) (amount : Nat)
  | replenishWithdrawalReserve (yieldProvider : Address)
  | pauseStaking (yieldProvider : Address)
  | unpauseStaking (yieldProvider : Address)
  | withdrawLST (yieldProvider : Address) (amount : Nat)
  | initiateOssification (yieldProvider : Address)
  | progressPendingOssification (yieldProvider : Address)
  | addYieldProvider (yieldProvider : Address)
  | removeYieldProvider (yieldProvider : Address)
  | emergencyRemoveYieldProvider (yieldProvider : Address)
  | addL2YieldRecipient (l2YieldRecipient : Address)
  | removeL2YieldRecipient (l2YieldRecipient : Address)
  | setWithdrawalReserveParameters (params : UpdateReserveParametersConfig)

/-- A call that sends nothing to the reserve. -/
def unfunded (result : Except Revert YieldManager) : Except Revert (YieldManager × Nat) :=
  result.map (·, 0)

/-- Returns the ETH that goes to the reserve, too. -/
def call (isWithdrawLSTAllowed : Bool) : Call → Except Revert (YieldManager × Nat)
  | .secure action => unfunded (s.secure e action)
  | .receiveEther => .ok (s.receiveEther e.value, 0)
  | .receiveFundsFromReserve => unfunded (s.receiveFundsFromReserve reserve e)
  | .transferFundsToReserve amount => s.transferFundsToReserve e amount
  | .fundYieldProvider yieldProvider amount =>
    unfunded (s.fundYieldProvider reserve e p yieldProvider amount)
  | .unstake yieldProvider => unfunded (s.unstake e p yieldProvider)
  | .unstakePermissionless yieldProvider validatorIndex slot =>
    unfunded (s.unstakePermissionless reserve e p yieldProvider validatorIndex slot)
  | .safeWithdrawFromYieldProvider yieldProvider amount =>
    s.safeWithdrawFromYieldProvider reserve e p yieldProvider amount
  | .safeAddToWithdrawalReserve yieldProvider amount =>
    s.safeAddToWithdrawalReserve reserve e p yieldProvider amount
  | .replenishWithdrawalReserve yieldProvider =>
    s.replenishWithdrawalReserve reserve p yieldProvider
  | .pauseStaking yieldProvider => unfunded (s.pauseStaking e p yieldProvider)
  | .unpauseStaking yieldProvider => unfunded (s.unpauseStaking reserve e p yieldProvider)
  | .withdrawLST yieldProvider amount =>
    unfunded (s.withdrawLST e p isWithdrawLSTAllowed yieldProvider amount)
  | .initiateOssification yieldProvider => unfunded (s.initiateOssification e p yieldProvider)
  | .progressPendingOssification yieldProvider =>
    unfunded (s.progressPendingOssification e p yieldProvider)
  | .addYieldProvider yieldProvider => unfunded (s.addYieldProvider e p yieldProvider)
  | .removeYieldProvider yieldProvider => unfunded (s.removeYieldProvider e p yieldProvider)
  | .emergencyRemoveYieldProvider yieldProvider =>
    unfunded (s.emergencyRemoveYieldProvider e p yieldProvider)
  | .addL2YieldRecipient l2YieldRecipient => unfunded (s.addL2YieldRecipient e l2YieldRecipient)
  | .removeL2YieldRecipient l2YieldRecipient =>
    unfunded (s.removeL2YieldRecipient e l2YieldRecipient)
  | .setWithdrawalReserveParameters params =>
    unfunded (s.setWithdrawalReserveParameters e params)

end YieldManager

end StatusNetwork.Yield
