import StatusNetwork.Staking.Ledger

/-!
# What the updates of the accounts compute

The two updates that every operation starts with, as plain functions of the state:
`updateRewardIndex` gives `advance`, and `updateVault` settles one vault and adds
to its points.
-/

namespace StatusNetwork.Staking.Ledger

open Checked (add_eq_ok mulDiv_eq_ok sub_eq_ok)

def shares (l : Ledger) : Nat := l.totalStaked + l.totalMPStaked

def pendingAt (l : Ledger) (now : Nat) : Nat :=
  (min now l.rewardEndTime - l.lastRewardTime) * l.rewardAmount /
    (l.rewardEndTime - l.rewardStartTime)

/-- The pending rewards, of which there are none while nobody has shares. -/
def accruedAt (l : Ledger) (now : Nat) : Nat := if l.shares = 0 then 0 else l.pendingAt now

def increment (l : Ledger) (now : Nat) : Nat := l.accruedAt now * SCALE_FACTOR / l.shares

/-- The rewards the index moves for at `now`. -/
def gained (l : Ledger) (now : Nat) : Nat := if 0 < l.increment now then l.accruedAt now else 0

/-- The rewards counted at `now` although they are too few to move the index. -/
def dust (l : Ledger) (now : Nat) : Nat := if 0 < l.increment now then 0 else l.accruedAt now

def advance (l : Ledger) (now : Nat) : Ledger :=
  { l with
    totalRewardsAccrued := l.totalRewardsAccrued + l.accruedAt now
    lastRewardIndex := l.lastRewardIndex + l.increment now
    lastRewardTime := if 0 < l.increment now then min now l.rewardEndTime else l.lastRewardTime }

@[simp] theorem advance_rewardAmount (l : Ledger) : (l.advance now).rewardAmount = l.rewardAmount :=
  rfl

@[simp] theorem advance_rewardStartTime (l : Ledger) :
    (l.advance now).rewardStartTime = l.rewardStartTime := rfl

@[simp] theorem advance_rewardEndTime (l : Ledger) :
    (l.advance now).rewardEndTime = l.rewardEndTime := rfl

@[simp] theorem advance_vaultData (l : Ledger) : (l.advance now).vaultData = l.vaultData := rfl

@[simp] theorem advance_shares (l : Ledger) : (l.advance now).shares = l.shares := rfl

-- What the operations make of the accounts

/-- What `stake` and `lock` write. -/
def restake (l : Ledger) (v : Address) (amount mp maxMP : Nat) : Ledger :=
  let d := l.vaultData v
  { l.setVault v { d with
      stakedBalance := d.stakedBalance + amount
      mpAccrued := d.mpAccrued + mp
      maxMP := d.maxMP + maxMP
      rewardIndex := l.lastRewardIndex } with
    totalStaked := l.totalStaked + amount
    totalMPStaked := l.totalMPStaked + mp }

/-- `stake`, `lock` and `unstake` update the index and the vault, and then write the vault. The
stake of the vault is `staked` after that. -/
inductive Operates (now : Nat) (l : Ledger) (v : Address) : (staked : Nat) → Ledger → Prop
  | restake : (l.advance now).updateVault now v force = .ok l₁ → (amount = 0 ∨ force = true) →
    amount ≤ mp → mp + 4 * amount ≤ maxMP →
    maxMP + (l₁.vaultData v).maxMP ≤ 9 * ((l₁.vaultData v).stakedBalance + amount) →
    Operates now l v ((l.vaultData v).stakedBalance + amount) (l₁.restake v amount mp maxMP)
  | reduce : (l.advance now).updateVault now v false = .ok l₁ → l₁.reduceStake v amount = .ok l' →
    Operates now l v ((l.vaultData v).stakedBalance - amount) l'

/-- The settled rewards of a vault are paid out, or a part of them. -/
def payOut (l : Ledger) (v : Address) (paid : Nat) : Ledger :=
  { l.setVault v
      { l.vaultData v with rewardsAccrued := (l.vaultData v).rewardsAccrued - paid } with
    totalRewardsAccrued := l.totalRewardsAccrued - paid }

/-- The loops of `updateAccount` and `redeemRewards`: one vault after the other is updated and
paid out. -/
inductive Visits (now : Nat) : Ledger → List Address → (paid : Nat) → Ledger → Prop
  | nil : Visits now l [] 0 l
  | cons : l.updateVault now v false = .ok l₁ → paid ≤ (l₁.vaultData v).rewardsAccrued →
    paid ≤ l₁.totalRewardsAccrued → Visits now (l₁.payOut v paid) vs rest l' →
    Visits now l (v :: vs) (paid + rest) l'

def move (l : Ledger) (v migrateTo : Address) : Ledger :=
  (l.setVault migrateTo (l.vaultData v)).setVault v .empty

variable {l l' : Ledger} {d : VaultData}

-- The updates

theorem advance_moved (h : 0 < l.increment now) :
    (l.advance now).lastRewardTime = min now l.rewardEndTime := if_pos h

theorem advance_stays (h : ¬ 0 < l.increment now) :
    (l.advance now).lastRewardTime = l.lastRewardTime := if_neg h

/-- The index stays when nobody has shares, and when the pending rewards are too few. -/
theorem increment_eq_zero :
    l.increment now = 0 ↔ l.shares = 0 ∨ l.pendingAt now * SCALE_FACTOR < l.shares := by
  by_cases h : l.shares = 0
  all_goals
    simp [increment, accruedAt, h]

/-- At `now` nothing is pending, or enough to move the index. -/
def IndexMoves (l : Ledger) (now : Nat) : Prop :=
  l.pendingAt now = 0 ∨ l.totalStaked + l.totalMPStaked ≤ l.pendingAt now * SCALE_FACTOR

instance : Decidable (l.IndexMoves now) := inferInstanceAs (Decidable (_ ∨ _))

theorem IndexMoves.dust_eq_zero (h : l.IndexMoves now) : l.dust now = 0 := by
  unfold dust
  split
  · rfl
  · rename_i hstays
    rcases increment_eq_zero.mp (Nat.eq_zero_of_not_pos hstays) with hnone | hfew
    · exact if_pos hnone
    · rcases h with h | h
      · simp [accruedAt, h]
      · exact absurd h (Nat.not_le.mpr hfew)

theorem advance_settled (l : Ledger) (now : Nat) : (l.advance now).increment now = 0 := by
  by_cases hmoves : 0 < l.increment now
  · have hpending : (l.advance now).pendingAt now = 0 := by
      simp [pendingAt, advance_moved hmoves]
    simp [increment, accruedAt, hpending]
  · have hsame : (l.advance now).increment now = l.increment now := by
      simp [increment, accruedAt, pendingAt, advance_stays hmoves]
    omega

theorem min_eq_ite (a b : Nat) : (if a < b then a else b) = min a b := by
  split <;> omega

theorem calculatePendingRewards_ok (h : l.calculatePendingRewards now = .ok p) :
    p = l.pendingAt now := by
  unfold calculatePendingRewards at h
  unfold pendingAt
  split at h
  · rename_i hend
    cases h
    simp [Nat.sub_eq_zero_of_le hend]
  · simp only [min_eq_ite] at h
    split at h
    · rename_i hlast
      cases h
      simp [Nat.sub_eq_zero_of_le hlast]
    · simp only [bind_eq_ok, sub_eq_ok] at h
      obtain ⟨_, ⟨-, rfl⟩, _, ⟨-, rfl⟩, h⟩ := h
      split at h
      · rename_i hzero
        cases h
        simp [hzero]
      · exact (mulDiv_eq_ok.mp h).2.2

theorem rewardIndex_ok (h : l.rewardIndex now = .ok (accrued, index)) :
    accrued = l.accruedAt now ∧ index = l.lastRewardIndex + l.increment now := by
  simp only [rewardIndex, totalShares, bind_eq_ok, add_eq_ok] at h
  obtain ⟨_, ⟨-, rfl⟩, h⟩ := h
  split at h
  · rename_i hshares
    cases h
    simp [increment, accruedAt, shares, hshares]
  · rename_i hshares
    have haccrued : l.accruedAt now = l.pendingAt now := if_neg hshares
    simp only [bind_eq_ok, sub_eq_ok, gt_iff_lt, min_eq_ite] at h
    obtain ⟨_, ⟨-, rfl⟩, h⟩ := h
    split at h
    · rename_i helapsed
      cases h
      have : l.pendingAt now = 0 := by simp [pendingAt, helapsed]
      simp [increment, haccrued, this]
    · obtain ⟨p, hp, h⟩ := bind_eq_ok.mp h
      obtain rfl := calculatePendingRewards_ok hp
      split at h
      · rename_i hzero
        cases h
        simp [increment, haccrued, hzero]
      · simp only [bind_eq_ok, mulDiv_eq_ok, add_eq_ok] at h
        obtain ⟨_, ⟨-, -, rfl⟩, _, ⟨-, rfl⟩, ⟨⟩⟩ := h
        simp [increment, haccrued, shares]

theorem updateRewardIndex_ok (h : l.updateRewardIndex now = .ok l') : l' = l.advance now := by
  simp only [updateRewardIndex, bind_eq_ok, add_eq_ok] at h
  obtain ⟨⟨accrued, index⟩, hindex, _, ⟨-, rfl⟩, h⟩ := h
  obtain ⟨rfl, rfl⟩ := rewardIndex_ok hindex
  split at h
  · cases h
    have : 0 < l.increment now := by omega
    simp [advance, this, min_eq_ite]
  · cases h
    have : l.increment now = 0 := by omega
    simp [advance, this]

theorem vaultPendingRewards_ok (h : l.vaultPendingRewards now d = .ok r) :
    r = (d.stakedBalance + d.mpAccrued) *
      (l.lastRewardIndex + l.increment now - d.rewardIndex) / SCALE_FACTOR := by
  simp only [vaultPendingRewards, bind_eq_ok, add_eq_ok, sub_eq_ok, Checked.mul_eq_ok] at h
  obtain ⟨⟨accrued, index⟩, hindex, _, ⟨-, rfl⟩, _, ⟨-, rfl⟩, _, ⟨-, rfl⟩, h⟩ := h
  obtain ⟨-, rfl⟩ := rewardIndex_ok hindex
  cases h
  rfl

theorem vaultPendingMP_ok (h : vaultPendingMP now d = .ok mp) :
    mp ≤ d.maxMP - d.mpAccrued ∧ (d.stakedBalance = 0 → mp = 0) := by
  unfold vaultPendingMP at h
  split at h
  · cases h
    exact ⟨Nat.zero_le _, fun _ => rfl⟩
  split at h
  · cases h
    exact ⟨Nat.zero_le _, fun _ => rfl⟩
  · rename_i hne
    exact ⟨calculateAccrual_le h, fun h0 => absurd (.inr h0) hne⟩

def updated (d : VaultData) (lastRewardIndex index mp time : Nat) : VaultData :=
  { d with
    rewardIndex := lastRewardIndex
    mpAccrued := d.mpAccrued + mp
    lastMPUpdateTime := time
    rewardsAccrued := d.rewardsAccrued +
      (d.stakedBalance + d.mpAccrued) * (index - d.rewardIndex) / SCALE_FACTOR }

theorem updateVault_ok (h : l.updateVault now v force = .ok l') :
    ∃ mp time, mp ≤ (l.vaultData v).maxMP - (l.vaultData v).mpAccrued ∧
      ((l.vaultData v).stakedBalance = 0 → mp = 0) ∧
      l' = { l.setVault v (updated (l.vaultData v) l.lastRewardIndex
          (l.lastRewardIndex + l.increment now) mp time) with
        totalMPStaked := l.totalMPStaked + mp } := by
  simp only [updateVault, bind_eq_ok, add_eq_ok] at h
  obtain ⟨r, hr, _, ⟨-, rfl⟩, mp, hmp, h⟩ := h
  obtain rfl := vaultPendingRewards_ok hr
  obtain ⟨hle, hzero⟩ := vaultPendingMP_ok hmp
  split at h
  · simp only [bind_eq_ok, add_eq_ok] at h
    obtain ⟨_, ⟨-, rfl⟩, _, ⟨-, rfl⟩, ⟨⟩⟩ := h
    exact ⟨mp, now, hle, hzero, rfl⟩
  · rename_i hnone
    cases h
    obtain rfl : mp = 0 := by
      by_contra hpos
      exact hnone (.inl (Nat.pos_of_ne_zero hpos))
    exact ⟨0, _, hle, hzero, rfl⟩

theorem reduceStake_ok (h : l.reduceStake v amount = .ok l') :
    let d := l.vaultData v
    ∃ mp maxMP, amount ≤ d.stakedBalance ∧ amount ≤ l.totalStaked ∧
      mp = d.mpAccrued * (d.stakedBalance - amount) / d.stakedBalance ∧ mp ≤ d.mpAccrued ∧
      maxMP = d.maxMP * (d.stakedBalance - amount) / d.stakedBalance ∧
      d.mpAccrued - mp ≤ l.totalMPStaked ∧
      l' = { l.setVault v { d with
          stakedBalance := d.stakedBalance - amount
          maxMP
          rewardIndex := l.lastRewardIndex
          mpAccrued := mp } with
        totalMPStaked := l.totalMPStaked - (d.mpAccrued - mp)
        totalStaked := l.totalStaked - amount } := by
  simp only [reduceStake, bind_eq_ok, sub_eq_ok] at h
  obtain ⟨⟨total, deltaMax⟩, hcalc, _, ⟨-, rfl⟩, _, ⟨-, rfl⟩, _, ⟨-, rfl⟩, _, ⟨htotal, rfl⟩,
    _, ⟨hstaked, rfl⟩, h⟩ := h
  obtain ⟨-, hle, hmp, hmp', hmax, hmax'⟩ := calculateUnstake_ok hcalc
  cases h
  have hback : (l.vaultData v).mpAccrued - ((l.vaultData v).mpAccrued - total) = total := by omega
  refine ⟨_, _, hle, hstaked, hmp', Nat.sub_le _ _, hmax', ?_, ?_⟩
  · rw [hback]
    exact htotal
  · rw [hback]

-- The operations

theorem stake_operates (h : l.stake now v amount period u = .ok (l', r)) :
    Operates now l v ((l.vaultData v).stakedBalance + amount) l' ∧ r = max u now + period := by
  simp only [stake, bind_eq_ok, add_eq_ok] at h
  obtain ⟨l₁, hindex, l₂, hvault, ⟨mp, maxMP, lockEnd⟩, hcalc, _, ⟨-, rfl⟩, _, ⟨-, rfl⟩,
    _, ⟨-, rfl⟩, _, ⟨-, rfl⟩, _, ⟨-, rfl⟩, ⟨⟩⟩ := h
  obtain rfl := updateRewardIndex_ok hindex
  obtain ⟨hmp, hmax, hlimit, hr⟩ := calculateStake_ok hcalc
  exact ⟨.restake hvault (.inr rfl) hmp (Nat.le_of_eq hmax.symm) hlimit, hr⟩

theorem lock_operates (h : l.lock now v period u = .ok (l', r)) :
    Operates now l v (l.vaultData v).stakedBalance l' ∧ r = max u now + period := by
  simp only [lock, bind_eq_ok, add_eq_ok] at h
  obtain ⟨l₁, hindex, l₂, hvault, ⟨mp, lockEnd⟩, hcalc, _, ⟨-, rfl⟩, _, ⟨-, rfl⟩, _, ⟨-, rfl⟩,
    ⟨⟩⟩ := h
  obtain rfl := updateRewardIndex_ok hindex
  obtain ⟨-, hlimit, hr⟩ := calculateLock_ok hcalc
  refine ⟨@Operates.restake _ _ _ _ _ 0 mp mp hvault (.inl rfl) (Nat.zero_le _) ?_ hlimit, hr⟩
  exact Nat.le_refl _

theorem unstake_operates (h : l.unstake now v amount = .ok l') :
    Operates now l v ((l.vaultData v).stakedBalance - amount) l' := by
  simp only [unstake, bind_eq_ok] at h
  obtain ⟨l₁, hindex, l₂, hvault, h⟩ := h
  obtain rfl := updateRewardIndex_ok hindex
  exact .reduce hvault h

theorem leave_ok (h : l.leave v = .ok l') :
    ∃ l₁, (l₁ = l ∧ (l.vaultData v).stakedBalance = 0 ∨
      l.reduceStake v (l.vaultData v).stakedBalance = .ok l₁) ∧ l' = l₁.setVault v .empty := by
  simp only [leave, bind_eq_ok] at h
  obtain ⟨l₁, h, ⟨⟩⟩ := h
  split at h
  · exact ⟨l₁, .inr h, rfl⟩
  · rename_i h0
    cases h
    exact ⟨l, .inl ⟨rfl, Nat.eq_zero_of_not_pos h0⟩, rfl⟩

theorem updateAccount_visits (h : l.updateAccount now vs = .ok l') :
    Visits now (l.advance now) vs 0 l' := by
  simp only [updateAccount, bind_eq_ok] at h
  obtain ⟨l₁, hindex, h⟩ := h
  rw [← updateRewardIndex_ok hindex]
  clear hindex
  induction vs generalizing l₁ with
  | nil =>
    cases h
    exact .nil
  | cons v vs ih =>
    obtain ⟨l₂, hv, h⟩ := bind_eq_ok.mp h
    have hsame : l₂.payOut v 0 = l₂ := by simp [payOut, setVault]
    exact .cons hv (Nat.zero_le _) (Nat.zero_le _) (hsame.symm ▸ ih l₂ h)

theorem redeemVault_ok (h : redeemVault now p v = .ok p') :
    ∃ l₁, p.1.updateVault now v false = .ok l₁ ∧
      (l₁.vaultData v).rewardsAccrued ≤ l₁.totalRewardsAccrued ∧
      add p.2 (l₁.vaultData v).rewardsAccrued = .ok p'.2 ∧
      p' = (l₁.payOut v (l₁.vaultData v).rewardsAccrued,
        p.2 + (l₁.vaultData v).rewardsAccrued) := by
  simp only [redeemVault, bind_eq_ok, sub_eq_ok] at h
  obtain ⟨l₁, hvault, _, hadd, _, ⟨hle, rfl⟩, ⟨⟩⟩ := h
  exact ⟨l₁, hvault, hle, hadd, by simp [payOut, (add_eq_ok.mp hadd).2]⟩

theorem redeemRewards_visits (h : l.redeemRewards now vs = .ok (l', r)) :
    Visits now (l.advance now) vs r l' := by
  simp only [redeemRewards, bind_eq_ok] at h
  obtain ⟨l₁, hindex, h⟩ := h
  rw [← updateRewardIndex_ok hindex]
  suffices hall : ∀ (p : Ledger × Nat), vs.foldlM (redeemVault now) p = .ok (l', r) →
      ∃ rest, r = p.2 + rest ∧ Visits now p.1 vs rest l' by
    obtain ⟨rest, rfl, hrest⟩ := hall _ h
    rwa [Nat.zero_add]
  clear h
  induction vs with
  | nil =>
    intro p h
    cases h
    exact ⟨0, rfl, .nil⟩
  | cons v vs ih =>
    intro p h
    obtain ⟨p₁, hv, h⟩ := bind_eq_ok.mp h
    obtain ⟨rest, hr, hrest⟩ := ih p₁ h
    obtain ⟨l₂, hvault, hle, -, rfl⟩ := redeemVault_ok hv
    exact ⟨_, by rw [hr, Nat.add_assoc], .cons hvault (Nat.le_refl _) hle hrest⟩

theorem setReward_ok (h : l.setReward now amount duration = .ok l') :
    ∃ remaining, (l.advance now).remainingRewards now = .ok remaining ∧ l' = { l.advance now with
        lastRewardTime := now
        rewardAmount := remaining + amount
        rewardStartTime := now
        rewardEndTime := now + duration } := by
  simp only [setReward, bind_eq_ok, add_eq_ok] at h
  obtain ⟨l₁, hindex, remaining, hrem, _, ⟨-, rfl⟩, _, ⟨-, rfl⟩, ⟨⟩⟩ := h
  obtain rfl := updateRewardIndex_ok hindex
  exact ⟨remaining, hrem, rfl⟩

theorem migrateToVault_ok (h : l.migrateToVault now v migrateTo = .ok l') :
    ∃ l₁, (l.advance now).updateVault now v false = .ok l₁ ∧
      (l.vaultData migrateTo).stakedBalance = 0 ∧ l' = l₁.move v migrateTo := by
  simp only [migrateToVault, bind_eq_ok, failIf_eq_ok] at h
  obtain ⟨-, hempty, l₁, hindex, l₂, hvault, ⟨⟩⟩ := h
  obtain rfl := updateRewardIndex_ok hindex
  exact ⟨l₂, hvault, by omega, rfl⟩

end StatusNetwork.Staking.Ledger
