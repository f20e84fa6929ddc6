import StatusNetwork.Staking.Shares

/-!
# Rewards

A reward period distributes its amount evenly over its time. The manager moves an
index by the rewards accrued for each share, and pays a vault by the difference of
two indices. Of the rewards counted in `totalRewardsAccrued`, the index was moved for
`B` and not moved for `lost`: all that the vaults are due is covered by `B`, and `B`
with what the period has not distributed yet is covered by the tokens of the manager.
-/

namespace StatusNetwork.Staking

open RewardIndex

def VaultData.account (d : VaultData) : Account :=
  ⟨d.stakedBalance + d.mpAccrued, d.rewardIndex, d.rewardsAccrued⟩

namespace Ledger

variable {l l' : Ledger}

-- The reward period

def undistributed (l : Ledger) : Nat :=
  l.rewardAmount - (l.lastRewardTime - l.rewardStartTime) * l.rewardAmount /
    (l.rewardEndTime - l.rewardStartTime)

structure Timed (l : Ledger) (now : Nat) : Prop where
  start_le : l.rewardStartTime ≤ l.lastRewardTime
  last_le_end : l.lastRewardTime ≤ l.rewardEndTime
  last_le_now : l.lastRewardTime ≤ now

theorem distributed_add_le (h : x + y ≤ D) (R : Nat) :
    y * R / D + (R - (x + y) * R / D) ≤ R - x * R / D := by
  have hadd : x * R / D + y * R / D ≤ (x + y) * R / D := by
    rw [Nat.add_mul]
    exact Nat.div_add_div_le_add_div
  have hall : (x + y) * R / D ≤ R := Nat.div_le_of_le_mul (Nat.mul_le_mul_right R h)
  omega

theorem Timed.pendingAt_le (h : l.Timed t) (ht : t ≤ now) :
    l.pendingAt now + { l with lastRewardTime := min now l.rewardEndTime }.undistributed ≤
      l.undistributed := by
  obtain ⟨hstart, hend, hnow⟩ := h
  have hsum : l.lastRewardTime - l.rewardStartTime + (min now l.rewardEndTime - l.lastRewardTime) =
      min now l.rewardEndTime - l.rewardStartTime := by omega
  have h := @distributed_add_le (l.lastRewardTime - l.rewardStartTime)
    (min now l.rewardEndTime - l.lastRewardTime) (l.rewardEndTime - l.rewardStartTime)
    (by omega) l.rewardAmount
  rw [hsum] at h
  exact h

theorem accruedAt_le_pendingAt (l : Ledger) (now : Nat) : l.accruedAt now ≤ l.pendingAt now := by
  unfold accruedAt
  split <;> omega

theorem gained_add_dust (l : Ledger) (now : Nat) : l.gained now + l.dust now = l.accruedAt now := by
  unfold gained dust
  split <;> omega

theorem Timed.advance (h : l.Timed t) (ht : t ≤ now) : (l.advance now).Timed now := by
  obtain ⟨hstart, hend, hnow⟩ := h
  constructor <;> simp only [Ledger.advance] <;> split <;> omega

theorem Timed.gained_le (h : l.Timed t) (ht : t ≤ now) :
    l.gained now + (l.advance now).undistributed ≤ l.undistributed := by
  by_cases hmoves : 0 < l.increment now
  · have := h.pendingAt_le ht
    have := l.accruedAt_le_pendingAt now
    have hu : (l.advance now).undistributed =
        { l with lastRewardTime := min now l.rewardEndTime }.undistributed := by
      simp [undistributed, advance_moved hmoves]
    simp only [gained, hmoves, if_true, hu]
    omega
  · simp [gained, undistributed, hmoves, advance_stays hmoves]

-- What the vaults are due

def owed (l : Ledger) : Nat :=
  RewardIndex.owed SCALE_FACTOR l.lastRewardIndex fun v => (l.vaultData v).account

theorem Balanced.sum_shares (h : l.Balanced) : ∑ v, (l.vaultData v).account.shares = l.shares := by
  simp only [VaultData.account, Finset.sum_add_distrib, shares, h.staked, h.points]

theorem Balanced.owed_moved (h : l.Balanced) (now : Nat) :
    RewardIndex.owed SCALE_FACTOR (l.lastRewardIndex + l.increment now)
      (fun v => (l.vaultData v).account) ≤ l.owed + SCALE_FACTOR * l.accruedAt now := by
  have hadv : _ ≤ l.owed + _ := RewardIndex.owed_advance _ (l.increment now)
  rw [h.sum_shares] at hadv
  have hinc : l.shares * l.increment now ≤ l.accruedAt now * SCALE_FACTOR := Nat.mul_div_le _ _
  rw [Nat.mul_comm SCALE_FACTOR]
  exact hadv.trans (Nat.add_le_add_left hinc _)

theorem Balanced.owed_advance (h : l.Balanced) (now : Nat) :
    (l.advance now).owed ≤ l.owed + SCALE_FACTOR * l.gained now := by
  by_cases hmoves : 0 < l.increment now
  · simp only [gained, hmoves, if_true]
    exact h.owed_moved now
  · have hzero : l.increment now = 0 := by omega
    simp only [owed, Ledger.advance, hzero]
    exact Nat.le_add_right _ _

/-- The part of the accounts that writing a vault leaves alone. -/
structure SamePeriod (l l' : Ledger) : Prop where
  lastRewardIndex : l'.lastRewardIndex = l.lastRewardIndex
  rewardAmount : l'.rewardAmount = l.rewardAmount
  lastRewardTime : l'.lastRewardTime = l.lastRewardTime
  rewardStartTime : l'.rewardStartTime = l.rewardStartTime
  rewardEndTime : l'.rewardEndTime = l.rewardEndTime

theorem SamePeriod.timed (hs : SamePeriod l l') (h : l.Timed now) : l'.Timed now := by
  obtain ⟨hstart, hend, hnow⟩ := h
  constructor <;> simpa only [hs.lastRewardTime, hs.rewardStartTime, hs.rewardEndTime]

theorem SamePeriod.undistributed (hs : SamePeriod l l') : l'.undistributed = l.undistributed := by
  simp only [Ledger.undistributed, hs.rewardAmount, hs.lastRewardTime, hs.rewardStartTime,
    hs.rewardEndTime]

theorem owed_write (hv : l'.vaultData = Function.update l.vaultData v d)
    (hi : l'.lastRewardIndex = l.lastRewardIndex) :
    l'.owed + (l.vaultData v).account.due SCALE_FACTOR l.lastRewardIndex =
      l.owed + d.account.due SCALE_FACTOR l.lastRewardIndex := by
  have h := Fintype.sum_update
    (fun d : VaultData => d.account.due SCALE_FACTOR l.lastRewardIndex) l.vaultData v d
  simpa only [owed, RewardIndex.owed, hv, hi] using h

theorem rewardsAccrued_le (h : l.owed ≤ SCALE_FACTOR * B) (v : Address) :
    (l.vaultData v).rewardsAccrued ≤ B := by
  have hall := RewardIndex.sum_balance_le _ (by decide) h {v}
  exact (Nat.le_add_right _ _).trans hall

-- Solvency

structure Solvent (now supplied redeemed lost B : Nat) (l : Ledger) : Prop where
  timed : l.Timed now
  owed_le : l.owed ≤ SCALE_FACTOR * B
  counted : B + lost = l.totalRewardsAccrued
  funded : B + l.undistributed + redeemed ≤ supplied

theorem Solvent.empty : Ledger.empty.Solvent now 0 0 0 0 where
  timed := ⟨le_rfl, le_rfl, Nat.zero_le _⟩
  owed_le := by
    simp [owed, RewardIndex.owed, Ledger.empty, VaultData.empty, VaultData.account, Account.due]
  counted := rfl
  funded := by simp [undistributed, Ledger.empty]

theorem Solvent.later (h : l.Solvent t supplied redeemed lost B) (ht : t ≤ now) :
    l.Solvent now supplied redeemed lost B :=
  ⟨⟨h.timed.start_le, h.timed.last_le_end, h.timed.last_le_now.trans ht⟩, h.owed_le, h.counted,
    h.funded⟩

theorem Solvent.advance (h : l.Solvent t supplied redeemed lost B) (hb : l.Balanced)
    (ht : t ≤ now) :
    (l.advance now).Solvent now supplied redeemed (lost + l.dust now) (B + l.gained now) where
  timed := h.timed.advance ht
  owed_le := by
    rw [Nat.mul_add]
    exact (hb.owed_advance now).trans (Nat.add_le_add_right h.owed_le _)
  counted := by
    have := l.gained_add_dust now
    have := h.counted
    simp only [Ledger.advance]
    omega
  funded := by
    have := h.timed.gained_le ht
    have := h.funded
    omega

theorem due_at_index {d d' : VaultData} (hr : d'.rewardsAccrued = d.rewardsAccrued)
    (hi : d'.rewardIndex = i) : d'.account.due scale i ≤ d.account.due scale i := by
  subst hi
  simp only [VaultData.account, Account.due, hr, Nat.sub_self, Nat.mul_zero]
  exact Nat.le_add_right _ _

theorem settled_updateVault (hb : l.Balanced) (hi : l.increment now = 0)
    (hu : l.updateVault now v force = .ok l') : l'.increment now = 0 := by
  obtain ⟨mp, time, -, hzero, rfl⟩ := updateVault_ok hu
  rw [increment_eq_zero] at hi ⊢
  rcases hi with hnone | hfew
  · -- nobody has shares, so the vault has no stake to earn points on
    have hsum : (l.vaultData v).stakedBalance ≤ ∑ w, (l.vaultData w).stakedBalance :=
      Finset.single_le_sum (f := fun w => (l.vaultData w).stakedBalance)
        (fun _ _ => Nat.zero_le _) (Finset.mem_univ v)
    rw [← hb.staked] at hsum
    simp only [shares] at hnone
    left
    simp only [shares, setVault]
    omega
  · right
    simp only [shares, setVault, pendingAt] at hfew ⊢
    omega

section
variable (h : l.Solvent now supplied redeemed lost B)
include h

theorem Solvent.pay (hv : l'.vaultData = Function.update l.vaultData v d) (hs : SamePeriod l l')
    (hpaid : l'.totalRewardsAccrued + paid = l.totalRewardsAccrued)
    (hd : d.account.due SCALE_FACTOR l.lastRewardIndex + SCALE_FACTOR * paid ≤
      (l.vaultData v).account.due SCALE_FACTOR l.lastRewardIndex) :
    l'.Solvent now supplied (redeemed + paid) lost (B - paid) := by
  have hwrite := owed_write hv hs.lastRewardIndex
  have howed := h.owed_le
  have hscaled : SCALE_FACTOR * paid ≤ SCALE_FACTOR * B := by omega
  have hle : paid ≤ B := Nat.le_of_mul_le_mul_left hscaled (by decide)
  have hcounted := h.counted
  have hfunded := h.funded
  refine ⟨hs.timed h.timed, ?_, by omega, ?_⟩
  · rw [Nat.mul_sub]
    omega
  · rw [hs.undistributed]
    omega

theorem Solvent.write (hv : l'.vaultData = Function.update l.vaultData v d) (hs : SamePeriod l l')
    (hpaid : l'.totalRewardsAccrued = l.totalRewardsAccrued)
    (hd : d.account.due SCALE_FACTOR l.lastRewardIndex ≤
      (l.vaultData v).account.due SCALE_FACTOR l.lastRewardIndex) :
    l'.Solvent now supplied redeemed lost B :=
  h.pay hv hs (show _ + 0 = _ from hpaid) hd

theorem Solvent.updateVault (hi : l.increment now = 0) (hu : l.updateVault now v force = .ok l') :
    l'.Solvent now supplied redeemed lost B := by
  obtain ⟨mp, time, -, -, rfl⟩ := updateVault_ok hu
  refine h.write rfl ⟨rfl, rfl, rfl, rfl, rfl⟩ rfl ?_
  rw [hi]
  simp only [VaultData.account, updated, Account.due_at]
  exact (l.vaultData v).account.balance_le_due

theorem Solvent.reduceStake (hr : l.reduceStake v amount = .ok l') :
    l'.Solvent now supplied redeemed lost B := by
  obtain ⟨mp, maxMP, -, -, -, -, -, -, rfl⟩ := reduceStake_ok hr
  exact h.write rfl ⟨rfl, rfl, rfl, rfl, rfl⟩ rfl (due_at_index rfl rfl)

theorem Solvent.delete :
    (l.setVault v .empty).Solvent now supplied redeemed lost B := by
  refine h.write rfl ⟨rfl, rfl, rfl, rfl, rfl⟩ rfl ?_
  simp [VaultData.empty, VaultData.account, Account.due]

theorem Solvent.leave (hs : l.leave v = .ok l') :
    l'.Solvent now supplied redeemed lost B := by
  obtain ⟨l₁, ⟨rfl, -⟩ | hr, rfl⟩ := leave_ok hs
  · exact h.delete
  · exact (h.reduceStake hr).delete

theorem Solvent.move :
    (l.move v migrateTo).Solvent now supplied redeemed lost B := by
  have hsame : (l.setVault migrateTo (l.vaultData v)).vaultData v = l.vaultData v := by
    by_cases hv : v = migrateTo
    · subst hv
      simp [setVault]
    · simp [setVault, hv]
  have hwrite : (l.setVault migrateTo (l.vaultData v)).owed + _ = l.owed + _ := owed_write rfl rfl
  have hdelete : (l.move v migrateTo).owed + _ =
      (l.setVault migrateTo (l.vaultData v)).owed + _ := owed_write rfl rfl
  have hempty : VaultData.empty.account.due SCALE_FACTOR l.lastRewardIndex = 0 := by
    simp [VaultData.empty, VaultData.account, Account.due]
  have hindex : (l.setVault migrateTo (l.vaultData v)).lastRewardIndex = l.lastRewardIndex := rfl
  rw [hsame, hindex] at hdelete
  have howed := h.owed_le
  have hperiod : SamePeriod l (l.move v migrateTo) := ⟨rfl, rfl, rfl, rfl, rfl⟩
  exact ⟨hperiod.timed h.timed, by omega, h.counted, hperiod.undistributed ▸ h.funded⟩

end

-- What an operation keeps

/-- The accounts once a transaction has updated the index. -/
structure Current (now supplied redeemed lost : Nat) (l : Ledger) : Prop where
  balanced : l.Balanced
  settled : l.increment now = 0
  solvent : ∃ B, l.Solvent now supplied redeemed lost B

theorem Solvent.current (h : l.Solvent t supplied redeemed lost B) (hb : l.Balanced)
    (ht : t ≤ now) : (l.advance now).Current now supplied redeemed (lost + l.dust now) :=
  ⟨hb.advance, l.advance_settled now, _, h.advance hb ht⟩

theorem Current.updateVault (h : l.Current now supplied redeemed lost)
    (hu : l.updateVault now v force = .ok l') : l'.Current now supplied redeemed lost := by
  obtain ⟨B, hB⟩ := h.solvent
  exact ⟨h.balanced.updateVault hu, settled_updateVault h.balanced h.settled hu,
    B, hB.updateVault h.settled hu⟩

theorem Current.operates (h : (l.advance now).Current now supplied redeemed lost)
    (hs : Operates now l v n l') : ∃ B, l'.Solvent now supplied redeemed lost B := by
  cases hs with
  | restake hvault =>
    obtain ⟨B, hB⟩ := (h.updateVault hvault).solvent
    exact ⟨B, hB.write rfl ⟨rfl, rfl, rfl, rfl, rfl⟩ rfl (due_at_index rfl rfl)⟩
  | reduce hvault hr =>
    obtain ⟨B, hB⟩ := (h.updateVault hvault).solvent
    exact ⟨B, hB.reduceStake hr⟩

theorem Current.payOut (h : l.Current now supplied redeemed lost)
    (hpaid : paid ≤ (l.vaultData v).rewardsAccrued) (hle : paid ≤ l.totalRewardsAccrued) :
    (l.payOut v paid).Current now supplied (redeemed + paid) lost := by
  obtain ⟨B, hB⟩ := h.solvent
  refine ⟨h.balanced.payOut v paid, h.settled, B - paid, ?_⟩
  refine hB.pay rfl ⟨rfl, rfl, rfl, rfl, rfl⟩ (Nat.sub_add_cancel hle) ?_
  have := Nat.mul_le_mul_left SCALE_FACTOR hpaid
  simp only [VaultData.account, Account.due, Nat.mul_sub]
  omega

theorem Current.visits (h : l.Current now supplied redeemed lost)
    (hs : Visits now l vs paid l') : l'.Current now supplied (redeemed + paid) lost := by
  induction hs generalizing redeemed with
  | nil => exact h
  | cons hvault hpaid hle _ ih =>
    rw [← Nat.add_assoc]
    exact ih ((h.updateVault hvault).payOut hpaid hle)

theorem Timed.remainingRewards_le (h : l.Timed now) (hr : l.remainingRewards now = .ok r) :
    r ≤ l.undistributed := by
  unfold remainingRewards at hr
  split at hr
  · simp only [bind_eq_ok, Checked.sub_eq_ok, Checked.mulDiv_eq_ok] at hr
    obtain ⟨_, ⟨-, rfl⟩, _, ⟨-, rfl⟩, _, ⟨-, -, rfl⟩, -, rfl⟩ := hr
    have hlast := Nat.sub_le_sub_right h.last_le_now l.rewardStartTime
    exact Nat.sub_le_sub_left (Nat.div_le_div_right (Nat.mul_le_mul_right _ hlast)) _
  · cases hr
    exact Nat.zero_le _

theorem Solvent.setReward (h : l.Solvent t supplied redeemed lost B) (hb : l.Balanced)
    (ht : t ≤ now) (hs : l.setReward now amount duration = .ok l') :
    ∃ B, l'.Solvent now (supplied + amount) redeemed (lost + l.dust now) B := by
  obtain ⟨remaining, hrem, rfl⟩ := setReward_ok hs
  obtain ⟨B', hB⟩ := (h.current hb ht).solvent
  have hle := hB.timed.remainingRewards_le hrem
  have hfunded := hB.funded
  refine ⟨B', ⟨le_rfl, Nat.le_add_right _ _, le_rfl⟩, hB.owed_le, hB.counted, ?_⟩
  simp only [undistributed, Nat.sub_self, Nat.zero_mul, Nat.zero_div, Nat.sub_zero] at hfunded ⊢
  simp only [undistributed] at hle
  omega

/-- What a step does to the accounts, the tokens follow. -/
theorem Solvent.step (h : l.Solvent t supplied redeemed lost B) (hb : l.Balanced) (ht : t ≤ now)
    (hs : Step now l e l') :
    ∃ B, l'.Solvent now (supplied + e.funded) (redeemed + e.redeemed)
      (lost + if e.updatesIndex then l.dust now else 0) B := by
  cases hs with
  | idle => exact ⟨B, h.later ht⟩
  | leave hs => exact ⟨B, (h.later ht).leave hs⟩
  | updateRewards hs =>
    rw [if_pos rfl]
    obtain rfl := updateRewardIndex_ok hs
    exact (h.current hb ht).solvent
  | updateVault hindex hs =>
    rw [if_pos rfl]
    obtain rfl := updateRewardIndex_ok hindex
    exact ((h.current hb ht).updateVault hs).solvent
  | updateAccount hs =>
    rw [if_pos rfl]
    exact ((h.current hb ht).visits (updateAccount_visits hs)).solvent
  | stake hs =>
    rw [if_pos rfl]
    exact (h.current hb ht).operates (stake_operates hs).1
  | lock hs =>
    rw [if_pos rfl]
    exact (h.current hb ht).operates (lock_operates hs).1
  | unstake hs =>
    rw [if_pos rfl]
    exact (h.current hb ht).operates (unstake_operates hs)
  | migrateToVault hs =>
    rw [if_pos rfl]
    obtain ⟨l₁, hvault, -, rfl⟩ := migrateToVault_ok hs
    obtain ⟨B', h₁⟩ := ((h.current hb ht).updateVault hvault).solvent
    exact ⟨B', h₁.move⟩
  | setReward hs =>
    rw [if_pos rfl]
    exact h.setReward hb ht hs
  | redeemRewards hs =>
    rw [if_pos rfl]
    exact ((h.current hb ht).visits (redeemRewards_visits hs)).solvent

end Ledger

end StatusNetwork.Staking
