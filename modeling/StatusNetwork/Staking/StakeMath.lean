import StatusNetwork.Base.Checked

/-!
# The arithmetic of staking

Models `math/StakeMath.sol` and the functions of `math/MultiplierPointMath.sol`
that it calls. Amounts and times are words of 256 bits.
-/

namespace StatusNetwork.Staking

open Checked (ArithError)

inductive StakeMathError
  | invalidLockingPeriod
  | invalidAmount
  | insufficientBalance
  | absoluteMaxMPOverflow
  deriving DecidableEq

inductive StakeManagerError
  | vaultNotRegistered
  | vaultAlreadyRegistered
  | invalidVault
  | maxVaultsPerUserReached
  | amountCannotBeZero
  | emergencyModeEnabled
  | migrationTargetHasFunds
  | unauthorized
  | durationCannotBeZero
  | maxVaultsPerUserCannotBeZero
  deriving DecidableEq

inductive StakeVaultError
  | notEnoughAvailableBalance
  | invalidDestinationAddress
  | fundsLocked
  | notAllowedToExit
  | notAuthorized
  | invalidLockEnd
  | mustLeaveFirst
  | markedAsLeft
  | invalidMigrationTarget
  deriving DecidableEq

inductive Revert
  | arithmetic (e : ArithError)
  /-- The subtraction from `totalRewardsAccrued` in `redeemRewards`, kept apart from
  the other subtractions. -/
  | rewardsUnderflow
  | stakeMath (e : StakeMathError)
  | stakeManager (e : StakeManagerError)
  | unauthorizedCodehash
  | missingRole
  | paused
  | notPaused
  | transferExceedsBalance
  | insufficientAllowance
  | stakeVault (e : StakeVaultError)
  | callerIsNotTheOwner
  | noContract
  deriving DecidableEq

abbrev add := Checked.add Revert.arithmetic
abbrev sub := Checked.sub Revert.arithmetic
abbrev mul := Checked.mul Revert.arithmetic
abbrev mulDiv := Checked.mulDiv Revert.arithmetic
abbrev mulDivUp := Checked.mulDivUp Revert.arithmetic

-- Multiplier points

def YEAR : Nat := 365 * 24 * 60 * 60

def MAX_MULTIPLIER : Nat := 4

def MP_MPY_ABSOLUTE : Nat := 1 + 2 * MAX_MULTIPLIER

def accrueMP (balance deltaTime : Nat) : Except Revert Nat := mulDiv balance deltaTime YEAR

def bonusMP (balance lockedSeconds : Nat) : Except Revert Nat := accrueMP balance lockedSeconds

def initialMP (balance : Nat) : Nat := balance

def reduceMP (balance mp reducedAmount : Nat) : Except Revert Nat :=
  mulDivUp mp reducedAmount balance

def maxAbsoluteTotalMP (balance : Nat) : Except Revert Nat := mul balance MP_MPY_ABSOLUTE

-- Staking operations

def MIN_LOCKUP_PERIOD : Nat := 90 * 24 * 60 * 60

def MAX_LOCKUP_PERIOD : Nat := MAX_MULTIPLIER * YEAR

/-- The end of a lock prolonged at `now`, and how long it then still runs. -/
def extendLock (currentLockEndTime now increasedLockSeconds : Nat) :
    Except Revert (Nat × Nat) := do
  failIf (increasedLockSeconds > MAX_LOCKUP_PERIOD) (.stakeMath .invalidLockingPeriod)
  let newLockEnd ← add (max currentLockEndTime now) increasedLockSeconds
  let dtLock ← sub newLockEnd now
  failIf (dtLock ≠ 0 ∧ (dtLock < MIN_LOCKUP_PERIOD ∨ dtLock > MAX_LOCKUP_PERIOD))
    (.stakeMath .invalidLockingPeriod)
  .ok (newLockEnd, dtLock)

/-- The increases of the multiplier points and of their maximum, and the new lock end. -/
def calculateStake (balance currentMaxMP currentLockEndTime now increasedAmount
    increasedLockSeconds : Nat) : Except Revert (Nat × Nat × Nat) := do
  let newBalance ← add balance increasedAmount
  let (newLockEnd, dtLock) ← extendLock currentLockEndTime now increasedLockSeconds
  let bonus ← (if dtLock > 0 then bonusMP increasedAmount dtLock else .ok 0)
  let deltaMpBonus ← (if balance > 0 ∧ increasedLockSeconds > 0 then do
      let onBalance ← bonusMP balance increasedLockSeconds
      add bonus onBalance
    else .ok bonus)
  let deltaMpTotal ← add (initialMP increasedAmount) deltaMpBonus
  let accrued ← accrueMP increasedAmount (MAX_MULTIPLIER * YEAR)
  let deltaMpMax ← add deltaMpTotal accrued
  let newMax ← add deltaMpMax currentMaxMP
  let limit ← maxAbsoluteTotalMP newBalance
  failIf (newMax > limit) (.stakeMath .absoluteMaxMPOverflow)
  .ok (deltaMpTotal, deltaMpMax, newLockEnd)

/-- The increase of the multiplier points and of their maximum, and the new lock end. -/
def calculateLock (balance currentMaxMP currentLockEndTime now increasedLockSeconds : Nat) :
    Except Revert (Nat × Nat) := do
  failIf (balance = 0) (.stakeMath .insufficientBalance)
  let (newLockEnd, _) ← extendLock currentLockEndTime now increasedLockSeconds
  let deltaMp ← bonusMP balance increasedLockSeconds
  let newMax ← add deltaMp currentMaxMP
  let limit ← maxAbsoluteTotalMP balance
  failIf (newMax > limit) (.stakeMath .absoluteMaxMPOverflow)
  .ok (deltaMp, newLockEnd)

/-- The decreases of the multiplier points and of their maximum. -/
def calculateUnstake (balance currentTotalMP currentMaxMP reducedAmount : Nat) :
    Except Revert (Nat × Nat) := do
  failIf (reducedAmount = 0) (.stakeMath .invalidAmount)
  failIf (reducedAmount > balance) (.stakeMath .insufficientBalance)
  let deltaMpTotal ← reduceMP balance currentTotalMP reducedAmount
  let deltaMpMax ← reduceMP balance currentMaxMP reducedAmount
  .ok (deltaMpTotal, deltaMpMax)

def calculateAccrual (balance currentTotalMP currentMaxMP lastAccrualTime now : Nat) :
    Except Revert Nat := do
  let dt ← sub now lastAccrualTime
  if currentTotalMP < currentMaxMP then do
    let accrued ← accrueMP balance dt
    let room ← sub currentMaxMP currentTotalMP
    .ok (min accrued room)
  else .ok 0

-- What the results satisfy

theorem extendLock_ok (h : extendLock lockEnd now secs = .ok (newLockEnd, dtLock)) :
    newLockEnd = max lockEnd now + secs ∧ dtLock = newLockEnd - now ∧
      (dtLock = 0 ∨ MIN_LOCKUP_PERIOD ≤ dtLock ∧ dtLock ≤ MAX_LOCKUP_PERIOD) := by
  simp only [extendLock, bind_eq_ok, failIf_eq_ok, Checked.add_eq_ok, Checked.sub_eq_ok] at h
  obtain ⟨-, -, _, ⟨-, rfl⟩, _, ⟨-, rfl⟩, -, hrange, ⟨⟩⟩ := h
  exact ⟨rfl, rfl, by omega⟩

theorem calculateStake_ok
    (h : calculateStake balance maxMP lockEnd now amount secs = .ok (total, deltaMax, newLockEnd)) :
    amount ≤ total ∧ deltaMax = total + 4 * amount ∧
      deltaMax + maxMP ≤ 9 * (balance + amount) ∧ newLockEnd = max lockEnd now + secs := by
  simp only [calculateStake, bind_eq_ok, failIf_eq_ok, Checked.add_eq_ok,
    accrueMP, maxAbsoluteTotalMP, Checked.mulDiv_eq_ok, Checked.mul_eq_ok] at h
  obtain ⟨_, ⟨-, rfl⟩, ⟨lockEnd', dtLock⟩, hlock, bonus, -, deltaMpBonus, -, _, ⟨-, rfl⟩,
    _, ⟨-, -, rfl⟩, _, ⟨-, rfl⟩, _, ⟨-, rfl⟩, _, ⟨-, rfl⟩, -, hlimit, ⟨⟩⟩ := h
  have hacc : amount * (MAX_MULTIPLIER * YEAR) / YEAR = 4 * amount := by
    rw [← Nat.mul_assoc, Nat.mul_div_cancel _ (by decide), MAX_MULTIPLIER, Nat.mul_comm]
  rw [hacc] at hlimit ⊢
  simp only [MP_MPY_ABSOLUTE, MAX_MULTIPLIER] at hlimit
  exact ⟨Nat.le_add_right amount _, rfl, by omega, (extendLock_ok hlock).1⟩

theorem calculateLock_ok
    (h : calculateLock balance maxMP lockEnd now secs = .ok (deltaMp, newLockEnd)) :
    balance ≠ 0 ∧ deltaMp + maxMP ≤ 9 * balance ∧ newLockEnd = max lockEnd now + secs := by
  simp only [calculateLock, bind_eq_ok, failIf_eq_ok, Checked.add_eq_ok,
    maxAbsoluteTotalMP, Checked.mul_eq_ok] at h
  obtain ⟨-, hne, ⟨lockEnd', dtLock⟩, hlock, _, -, _, ⟨-, rfl⟩, _, ⟨-, rfl⟩, -, hlimit, ⟨⟩⟩ := h
  simp only [MP_MPY_ABSOLUTE, MAX_MULTIPLIER] at hlimit
  exact ⟨hne, by omega, (extendLock_ok hlock).1⟩

theorem calculateUnstake_ok (h : calculateUnstake balance mp maxMP amount = .ok (total, deltaMax)) :
    amount ≠ 0 ∧ amount ≤ balance ∧
      total ≤ mp ∧ mp - total = mp * (balance - amount) / balance ∧
      deltaMax ≤ maxMP ∧ maxMP - deltaMax = maxMP * (balance - amount) / balance := by
  simp only [calculateUnstake, bind_eq_ok, failIf_eq_ok, reduceMP] at h
  obtain ⟨-, hne, -, hle, _, htotal, _, hmax, ⟨⟩⟩ := h
  rw [Nat.not_lt] at hle
  obtain ⟨ht, ht'⟩ := Checked.mulDivUp_ok htotal hle
  obtain ⟨hm, hm'⟩ := Checked.mulDivUp_ok hmax hle
  exact ⟨hne, hle, ht, ht', hm, hm'⟩

theorem calculateAccrual_le (h : calculateAccrual balance mp maxMP last now = .ok deltaMp) :
    deltaMp ≤ maxMP - mp := by
  simp only [calculateAccrual, bind_eq_ok, Checked.sub_eq_ok] at h
  obtain ⟨_, -, h⟩ := h
  split at h
  · simp only [bind_eq_ok, Checked.sub_eq_ok] at h
    obtain ⟨_, -, _, ⟨-, rfl⟩, ⟨⟩⟩ := h
    exact Nat.min_le_right _ _
  · cases h
    exact Nat.zero_le _

end StatusNetwork.Staking
