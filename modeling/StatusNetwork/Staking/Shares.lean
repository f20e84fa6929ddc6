import Mathlib.Data.FinEnum
import StatusNetwork.Base.RewardIndex
import StatusNetwork.Staking.LedgerLaws
import StatusNetwork.Staking.StakeManager

/-!
# Shares

The shares of a vault are its stake and its multiplier points. The totals of the
manager are the sums over all vaults, and the points of a vault stay between bounds
that its stake gives. Both hold in every state the manager gets into.
-/

namespace StatusNetwork.Staking

/-- One point for each staked token at once, four more with time, four more by locking. -/
structure VaultData.Bounded (d : VaultData) : Prop where
  staked_le : d.stakedBalance ≤ d.mpAccrued
  accrued_le : d.mpAccrued ≤ d.maxMP
  le_max : 5 * d.stakedBalance ≤ d.maxMP
  max_le : d.maxMP ≤ 9 * d.stakedBalance

namespace VaultData

theorem Bounded.empty : VaultData.empty.Bounded := ⟨by decide, by decide, by decide, by decide⟩

theorem Bounded.reduce {d d' : VaultData} (h : d.Bounded)
    (hs : d'.stakedBalance = d.stakedBalance - amount)
    (hmp : d'.mpAccrued = d.mpAccrued * (d.stakedBalance - amount) / d.stakedBalance)
    (hmax : d'.maxMP = d.maxMP * (d.stakedBalance - amount) / d.stakedBalance) : d'.Bounded := by
  rcases Nat.eq_zero_or_pos d.stakedBalance with h0 | hpos
  · simp only [h0, Nat.zero_sub, Nat.mul_zero, Nat.zero_div] at hs hmp hmax
    constructor <;> omega
  -- a multiple of the balance is reduced exactly, and reducing is monotone
  have hexact (k : Nat) : k * d.stakedBalance * (d.stakedBalance - amount) / d.stakedBalance =
      k * (d.stakedBalance - amount) := by
    rw [Nat.mul_right_comm, Nat.mul_div_cancel _ hpos]
  have hmono {a b : Nat} (hab : a ≤ b) : a * (d.stakedBalance - amount) / d.stakedBalance ≤
      b * (d.stakedBalance - amount) / d.stakedBalance :=
    Nat.div_le_div_right (Nat.mul_le_mul_right _ hab)
  rw [← hs] at hexact hmono hmp hmax
  constructor
  · have := hmono h.staked_le
    rw [Nat.mul_div_cancel_left _ hpos] at this
    rwa [hmp]
  · rw [hmp, hmax]
    exact hmono h.accrued_le
  · rw [hmax, ← hexact 5]
    exact hmono h.le_max
  · rw [hmax, ← hexact 9]
    exact hmono h.max_le

end VaultData

namespace Ledger

variable {l l' : Ledger}

structure Balanced (l : Ledger) : Prop where
  staked : l.totalStaked = ∑ v, (l.vaultData v).stakedBalance
  points : l.totalMPStaked = ∑ v, (l.vaultData v).mpAccrued
  vault : ∀ v, (l.vaultData v).Bounded

theorem Balanced.empty : Ledger.empty.Balanced :=
  ⟨by simp [Ledger.empty, VaultData.empty], by simp [Ledger.empty, VaultData.empty],
    fun _ => .empty⟩

theorem reduceStake_all (h : l.reduceStake v (l.vaultData v).stakedBalance = .ok l') :
    (l'.vaultData v).stakedBalance = 0 := by
  obtain ⟨mp, maxMP, -, -, -, -, -, -, rfl⟩ := reduceStake_ok h
  simp [setVault]

theorem updateVault_staked (h : l.updateVault now v force = .ok l') (w : Address) :
    (l'.vaultData w).stakedBalance = (l.vaultData w).stakedBalance := by
  obtain ⟨mp, time, -, -, rfl⟩ := updateVault_ok h
  by_cases hw : w = v
  · subst hw
    simp [setVault, updated]
  · simp [setVault, hw]

section
variable (h : l.Balanced)
include h

theorem Balanced.write (hv : l'.vaultData = Function.update l.vaultData v d) (hd : d.Bounded)
    (hs : l'.totalStaked + (l.vaultData v).stakedBalance = l.totalStaked + d.stakedBalance)
    (hm : l'.totalMPStaked + (l.vaultData v).mpAccrued = l.totalMPStaked + d.mpAccrued) :
    l'.Balanced := by
  have hstaked := Fintype.sum_update VaultData.stakedBalance l.vaultData v d
  have hpoints := Fintype.sum_update VaultData.mpAccrued l.vaultData v d
  refine ⟨?_, ?_, ?_⟩
  · rw [hv]
    have := h.staked
    omega
  · rw [hv]
    have := h.points
    omega
  · intro w
    rw [hv]
    by_cases hw : w = v
    · subst hw
      rwa [Function.update_self]
    · rw [Function.update_of_ne hw]
      exact h.vault w

theorem Balanced.advance : (l.advance now).Balanced :=
  { h with }

theorem Balanced.updateVault (hu : l.updateVault now v force = .ok l') : l'.Balanced := by
  obtain ⟨mp, time, hmp, hzero, rfl⟩ := updateVault_ok hu
  have hb := h.vault v
  refine h.write rfl ⟨?_, ?_, hb.le_max, hb.max_le⟩ rfl ?_
  · exact Nat.le_add_right_of_le hb.staked_le
  · have := hb.accrued_le
    simp only [updated]
    omega
  · simp only [updated]
    omega

theorem Balanced.reduceStake (hr : l.reduceStake v amount = .ok l') : l'.Balanced := by
  obtain ⟨mp, maxMP, hle, htotal, hmp, hmple, hmax, hpoints, rfl⟩ := reduceStake_ok hr
  refine h.write rfl ((h.vault v).reduce rfl hmp hmax) ?_ ?_
  all_goals
    dsimp only
    omega

theorem Balanced.operates (hs : Operates now l v n l') : l'.Balanced := by
  cases hs with
  | @restake _ l₁ _ _ _ hvault _ hmp hmax hlimit =>
    have h₁ := h.advance.updateVault hvault
    obtain ⟨hstaked, haccrued, hle, -⟩ := h₁.vault v
    refine h₁.write rfl ⟨?_, ?_, ?_, ?_⟩ ?_ ?_ <;> dsimp only [restake, setVault] <;> omega
  | reduce hvault hr => exact (h.advance.updateVault hvault).reduceStake hr

theorem Balanced.delete (h0 : (l.vaultData v).stakedBalance = 0) :
    (l.setVault v .empty).Balanced := by
  have := (h.vault v).accrued_le
  have := (h.vault v).max_le
  refine h.write rfl .empty ?_ ?_ <;> simp only [setVault, VaultData.empty] <;> omega

theorem Balanced.leave (hs : l.leave v = .ok l') : l'.Balanced := by
  obtain ⟨l₁, ⟨rfl, h0⟩ | hr, rfl⟩ := leave_ok hs
  · exact h.delete h0
  · exact (h.reduceStake hr).delete (reduceStake_all hr)

theorem Balanced.payOut (v : Address) (paid : Nat) : (l.payOut v paid).Balanced := by
  obtain ⟨hstaked, haccrued, hle, hmax⟩ := h.vault v
  exact h.write rfl ⟨hstaked, haccrued, hle, hmax⟩ rfl rfl

theorem Balanced.visits (hs : Visits now l vs paid l') : l'.Balanced := by
  induction hs with
  | nil => exact h
  | cons hvault _ _ _ ih => exact ih ((h.updateVault hvault).payOut _ _)

theorem Balanced.setReward (hs : l.setReward now amount duration = .ok l') : l'.Balanced := by
  obtain ⟨remaining, -, rfl⟩ := setReward_ok hs
  exact { h with }

theorem Balanced.move (h0 : (l.vaultData migrateTo).stakedBalance = 0) :
    (l.move v migrateTo).Balanced := by
  have hto := h.vault migrateTo
  have := hto.accrued_le
  have := hto.max_le
  let both : Ledger := { l.setVault migrateTo (l.vaultData v) with
    totalStaked := l.totalStaked + (l.vaultData v).stakedBalance
    totalMPStaked := l.totalMPStaked + (l.vaultData v).mpAccrued }
  have hboth : both.Balanced := by
    refine h.write rfl (h.vault v) ?_ ?_ <;> dsimp only [both] <;> omega
  have hsame : both.vaultData v = l.vaultData v := by
    by_cases hv : v = migrateTo
    · subst hv
      simp [both, setVault]
    · simp [both, setVault, hv]
  refine hboth.write rfl .empty ?_ ?_ <;> rw [hsame] <;> rfl

theorem Balanced.migrateToVault (hs : l.migrateToVault now v migrateTo = .ok l') : l'.Balanced := by
  obtain ⟨l₁, hvault, hempty, rfl⟩ := migrateToVault_ok hs
  exact (h.advance.updateVault hvault).move ((updateVault_staked hvault _).trans hempty)

theorem Balanced.step (hs : Step now l e l') : l'.Balanced := by
  cases hs with
  | idle => exact h
  | leave hs => exact h.leave hs
  | updateRewards hs =>
    obtain rfl := updateRewardIndex_ok hs
    exact h.advance
  | updateVault hindex hs =>
    obtain rfl := updateRewardIndex_ok hindex
    exact h.advance.updateVault hs
  | updateAccount hs => exact h.advance.visits (updateAccount_visits hs)
  | stake hs => exact h.operates (stake_operates hs).1
  | lock hs => exact h.operates (lock_operates hs).1
  | unstake hs => exact h.operates (unstake_operates hs)
  | migrateToVault hs => exact h.migrateToVault hs
  | setReward hs => exact h.setReward hs
  | redeemRewards hs => exact h.advance.visits (redeemRewards_visits hs)

end

end Ledger

namespace StakeManager

theorem apply_step (h : StakeManager.apply s tx = .ok s') :
    ∃ r, Ledger.Step tx.1.timestamp s.toLedger (tx.2.effect r) s'.toLedger := by
  simp only [apply, map_eq_ok] at h
  obtain ⟨⟨_, r⟩, h, rfl⟩ := h
  exact ⟨r, call_step h⟩

theorem Reachable.balanced (h : Reachable s now) : s.Balanced := by
  refine Runs.Reachable.invariant (I := fun s _ => s.Balanced) ?_ ?_ h
  · rintro _ _ ⟨owner, maxVaults, rfl⟩
    exact .empty
  · intro s t tx s' hb _ hs
    obtain ⟨r, hstep⟩ := apply_step hs
    exact hb.step hstep

/-- The totals are the sums over all vaults, and every vault has its points within the
bounds of its stake. -/
theorem shares_accounted (h : Reachable s now) :
    s.totalStaked = ∑ v, (s.vaultData v).stakedBalance ∧
      s.totalMPStaked = ∑ v, (s.vaultData v).mpAccrued ∧
      ∀ v, (s.vaultData v).stakedBalance ≤ (s.vaultData v).mpAccrued ∧
        (s.vaultData v).mpAccrued ≤ (s.vaultData v).maxMP ∧
        5 * (s.vaultData v).stakedBalance ≤ (s.vaultData v).maxMP ∧
        (s.vaultData v).maxMP ≤ 9 * (s.vaultData v).stakedBalance ∧
        ((s.vaultData v).stakedBalance = 0 → (s.vaultData v).mpAccrued = 0) := by
  have hb := h.balanced
  refine ⟨hb.staked, hb.points, fun v => ?_⟩
  obtain ⟨h₁, h₂, h₃, h₄⟩ := hb.vault v
  exact ⟨h₁, h₂, h₃, h₄, by omega⟩

def stakeForAYear : List (Msg × Call) :=
  [(⟨1, 0, 10⟩, .setVaultFactory 2), (⟨1, 0, 10⟩, .setTrustedCodehash 3 true),
    (⟨2, 0, 11⟩, .registerVault 5 4 3), (⟨5, 3, 12⟩, .stake 100 YEAR 0),
    (⟨5, 3, 12 + YEAR⟩, .unstake 30)]

theorem shares_accounted_after_a_year :
    ∃ s, Reachable s (12 + YEAR) ∧ s.totalStaked = 70 ∧ s.totalMPStaked = 210 ∧
      s.totalMPStaked = ∑ v, (s.vaultData v).mpAccrued := by
  obtain ⟨s, hreach, hs⟩ : ∃ s, Reachable s (12 + YEAR) ∧
      (s.totalStaked, s.totalMPStaked) = (70, 210) :=
    Runs.exists_reachable (fun _ _ _ h => h) (.init 0 ⟨1, 10, rfl⟩) stakeForAYear _
      (by decide +kernel)
  simp only [Prod.mk.injEq] at hs
  exact ⟨s, hreach, hs.1, hs.2, (shares_accounted hreach).2.1⟩

end StakeManager

end StatusNetwork.Staking
