import StatusNetwork.Staking.Rewards

/-!
# Funding of the rewards

The manager together with the Karma tokens it holds: `setReward` comes with as many
new tokens as it announces, `redeemRewards` transfers what it redeems. The tokens cover
all that the vaults are owed, in every run. What the manager counts as accrued may
exceed the tokens, when rewards too few to move the index are counted again and again.
-/

namespace StatusNetwork.Staking

open Except (Fails)

def Arithmetic : Revert → Prop
  | .arithmetic _ => True
  | _ => False

namespace Ledger

variable {l : Ledger}

-- The updates fail only by their arithmetic

section fails
variable (l : Ledger) (now : Nat)

theorem add_arithmetic : Fails Arithmetic (add a b) := Checked.add_fails fun _ => trivial

theorem sub_arithmetic : Fails Arithmetic (sub a b) := Checked.sub_fails fun _ => trivial

theorem mulDiv_arithmetic : Fails Arithmetic (mulDiv x y d) := Checked.mulDiv_fails fun _ => trivial

theorem calculatePendingRewards_arithmetic : Fails Arithmetic (l.calculatePendingRewards now) :=
  .ite (fun _ => .ok _) fun _ => .ite (fun _ => .ok _) fun _ =>
    .bind sub_arithmetic fun _ _ => .bind sub_arithmetic fun _ _ =>
      .ite (fun _ => .ok _) fun _ => mulDiv_arithmetic

theorem rewardIndex_arithmetic : Fails Arithmetic (l.rewardIndex now) :=
  .bind add_arithmetic fun _ _ => .ite (fun _ => .ok _) fun _ =>
    .bind sub_arithmetic fun _ _ => .ite (fun _ => .ok _) fun _ =>
      .bind (l.calculatePendingRewards_arithmetic now) fun _ _ => .ite (fun _ => .ok _) fun _ =>
        .bind mulDiv_arithmetic fun _ _ => .bind add_arithmetic fun _ _ => .ok _

theorem updateRewardIndex_arithmetic : Fails Arithmetic (l.updateRewardIndex now) :=
  .bind (l.rewardIndex_arithmetic now) fun _ _ => .bind add_arithmetic fun _ _ =>
    .ite (fun _ => .ok _) fun _ => .ok _

theorem vaultPendingRewards_arithmetic (d : VaultData) :
    Fails Arithmetic (l.vaultPendingRewards now d) :=
  .bind (l.rewardIndex_arithmetic now) fun _ _ => .bind add_arithmetic fun _ _ =>
    .bind sub_arithmetic fun _ _ => .bind (Checked.mul_fails fun _ => trivial) fun _ _ => .ok _

theorem vaultPendingMP_arithmetic (d : VaultData) : Fails Arithmetic (vaultPendingMP now d) :=
  .ite (fun _ => .ok _) fun _ => .ite (fun _ => .ok _) fun _ =>
    .bind sub_arithmetic fun _ _ => .ite
      (fun _ => .bind mulDiv_arithmetic fun _ _ => .bind sub_arithmetic fun _ _ => .ok _)
      fun _ => .ok _

theorem updateVault_arithmetic (v : Address) (force : Bool) :
    Fails Arithmetic (l.updateVault now v force) :=
  .bind (l.vaultPendingRewards_arithmetic now _) fun _ _ => .bind add_arithmetic fun _ _ =>
    .bind (vaultPendingMP_arithmetic now _) fun _ _ => .ite
      (fun _ => .bind add_arithmetic fun _ _ => .bind add_arithmetic fun _ _ => .ok _)
      fun _ => .ok _

end fails

-- What the vaults can be paid

theorem rewardsBalanceOf_ok (h : l.rewardsBalanceOf now v = .ok b) :
    b = (l.vaultData v).account.balance SCALE_FACTOR (l.lastRewardIndex + l.increment now) := by
  simp only [rewardsBalanceOf, bind_eq_ok, Checked.add_eq_ok] at h
  obtain ⟨pending, hpending, -, rfl⟩ := h
  rw [vaultPendingRewards_ok hpending]
  rfl

theorem totalRewardsSupply_ok (h : l.totalRewardsSupply now = .ok supply) :
    supply = l.totalRewardsAccrued + l.pendingAt now := by
  simp only [totalRewardsSupply, bind_eq_ok, Checked.add_eq_ok] at h
  obtain ⟨pending, hpending, -, rfl⟩ := h
  rw [calculatePendingRewards_ok hpending]

theorem Solvent.sum_rewards_le (h : l.Solvent t supplied redeemed lost B) (hb : l.Balanced)
    {balance : Address → Nat} (hS : ∀ v ∈ S, l.rewardsBalanceOf now v = .ok (balance v)) :
    ∑ v ∈ S, balance v ≤ B + l.accruedAt now := by
  rw [Finset.sum_congr rfl fun v hv => rewardsBalanceOf_ok (hS v hv)]
  refine RewardIndex.sum_balance_le _ (by decide) ?_ S
  rw [Nat.mul_add]
  exact (hb.owed_moved now).trans (Nat.add_le_add_right h.owed_le _)

/-- What the index can still be moved for is part of what the period has to distribute. -/
theorem Solvent.accruedAt_le (h : l.Solvent t supplied redeemed lost B) (ht : t ≤ now) :
    B + l.accruedAt now ≤ supplied - redeemed := by
  have := h.funded
  have := h.timed.pendingAt_le ht
  have := l.accruedAt_le_pendingAt now
  omega

theorem Current.redeemVault_arithmetic (h : p.1.Current now supplied redeemed lost)
    (v : Address) : Fails Arithmetic (Ledger.redeemVault now p v) := by
  refine .bind (p.1.updateVault_arithmetic now v false) fun l₁ hvault => ?_
  refine .bind add_arithmetic fun _ _ => ?_
  obtain ⟨B, hB⟩ := (h.updateVault hvault).solvent
  have hle : (l₁.vaultData v).rewardsAccrued ≤ l₁.totalRewardsAccrued :=
    (rewardsAccrued_le hB.owed_le v).trans (hB.counted ▸ Nat.le_add_right _ _)
  exact .bind (Checked.sub_fails_of_le hle) fun _ _ => .ok _

theorem Current.redeemVault (h : p.1.Current now supplied (redeemed + p.2) lost)
    (hs : Ledger.redeemVault now p v = .ok p') :
    p'.1.Current now supplied (redeemed + p'.2) lost := by
  obtain ⟨l₁, hvault, hle, -, rfl⟩ := redeemVault_ok hs
  rw [← Nat.add_assoc]
  exact (h.updateVault hvault).payOut le_rfl hle

theorem Solvent.redeemRewards_arithmetic (h : l.Solvent t supplied redeemed lost B)
    (hb : l.Balanced) (ht : t ≤ now) (vs : List Address) :
    Fails Arithmetic (l.redeemRewards now vs) := by
  refine .bind (l.updateRewardIndex_arithmetic now) fun l₁ hindex => ?_
  obtain rfl := updateRewardIndex_ok hindex
  exact .foldlM
    (fun p : Ledger × Nat => p.1.Current now supplied (redeemed + p.2) (lost + l.dust now))
    (fun _ _ _ h hu => Current.redeemVault h hu) (fun _ v h => h.redeemVault_arithmetic v)
    (h.current hb ht)

end Ledger

-- Runs

/-- The manager, the amounts of the rewards set and the amounts redeemed. -/
structure Funding where
  manager : StakeManager
  supplied : Nat
  redeemed : Nat

namespace Funding

open StakeManager (Call)

/-- What the manager has of Karma. Nothing but `redeemRewards` takes tokens from it: it transfers
none otherwise and approves no one, and it is not slashed. -/
def karma (w : Funding) : Nat := w.supplied - w.redeemed

/-- Karma mints the amount of a reward to the manager and calls `setReward`; redeemed rewards
are transferred, which takes that the manager has them. -/
def apply (w : Funding) (tx : Msg × Call) : Except Revert Funding := do
  let (manager, returned) ← w.manager.call tx.1 tx.2
  let effect := tx.2.effect returned
  failIf (w.karma < effect.redeemed) .transferExceedsBalance
  .ok { manager
        supplied := w.supplied + effect.funded
        redeemed := w.redeemed + effect.redeemed }

def time (tx : Msg × Call) : Nat := tx.1.timestamp

def Initial (w : Funding) : Prop :=
  ∃ owner maxVaultsPerUser, w = ⟨.initialized owner maxVaultsPerUser, 0, 0⟩

def Reachable : Funding → (now : Nat) → Prop :=
  Runs.Reachable time Initial fun w tx w' => w.apply tx = .ok w'

/-- The invariant of the runs: `lost` rewards were counted and not distributed. -/
structure Sound (lost : Nat) (w : Funding) (now : Nat) : Prop where
  balanced : w.manager.Balanced
  solvent : ∃ B, w.manager.Solvent now w.supplied w.redeemed lost B

theorem Initial.sound (h : Initial w) (now : Nat) : Sound 0 w now := by
  obtain ⟨owner, maxVaultsPerUser, rfl⟩ := h
  exact ⟨.empty, 0, .empty⟩

theorem Sound.apply (h : Sound lost w t) (ht : t ≤ tx.1.timestamp) (hs : w.apply tx = .ok w') :
    Sound (lost + if tx.2.updatesIndex then w.manager.dust tx.1.timestamp else 0) w'
      tx.1.timestamp := by
  simp only [Funding.apply, bind_eq_ok] at hs
  obtain ⟨⟨m, returned⟩, hcall, -, -, ⟨⟩⟩ := hs
  have hstep := StakeManager.call_step hcall
  obtain ⟨B, hB⟩ := h.solvent
  have heffect : (tx.2.effect returned).updatesIndex = tx.2.updatesIndex := by
    cases tx.2 <;> rfl
  have hB' := hB.step h.balanced ht hstep
  rw [heffect] at hB'
  exact ⟨h.balanced.step hstep, hB'⟩

theorem Reachable.sound (h : Reachable w now) : ∃ lost, Sound lost w now := by
  refine Runs.Reachable.invariant (I := fun w now => ∃ lost, Sound lost w now) ?_ ?_ h
  · exact fun w t hw => ⟨0, hw.sound t⟩
  · rintro w t tx w' ⟨lost, hsound⟩ ht hs
    exact ⟨_, hsound.apply ht hs⟩

theorem Sound.redeem_fails (h : Sound lost w t) (ht : t ≤ msg.timestamp) (account : Address) :
    Fails (fun e => e ≠ .rewardsUnderflow ∧ e ≠ .transferExceedsBalance)
      (w.apply (msg, .redeemRewards account)) := by
  obtain ⟨B, hB⟩ := h.solvent
  refine .bind (.bind ?_ fun _ _ => .bind ?_ fun _ _ => .ok _) fun ⟨m, returned⟩ hcall => ?_
  · exact .bind (.failIf (by decide)) fun _ _ => .failIf (by decide)
  · refine (hB.redeemRewards_arithmetic h.balanced ht _).mono ?_
    rintro _ he
    exact ⟨by rintro rfl; exact he, by rintro rfl; exact he⟩
  · obtain ⟨B', hB'⟩ := hB.step h.balanced ht (StakeManager.call_step hcall)
    have hfunded := hB'.funded
    refine .bind (.failIf_not ?_) fun _ _ => .ok _
    simp only [karma, Call.effect] at hfunded ⊢
    omega

/-- What the vaults can redeem, at any later time, is covered by what the manager reports as
its supply and by the tokens it holds; so redeeming fails neither by counting nor by paying. -/
theorem rewards_covered (h : Reachable w t) :
    (∀ now, t ≤ now → ∀ (S : Finset Address) (balance : Address → Nat),
      (∀ v ∈ S, w.manager.rewardsBalanceOf now v = .ok (balance v)) →
        (∀ supply, w.manager.totalRewardsSupply now = .ok supply → ∑ v ∈ S, balance v ≤ supply) ∧
          ∑ v ∈ S, balance v ≤ w.karma) ∧
      ∀ msg account, t ≤ msg.timestamp →
        w.apply (msg, .redeemRewards account) ≠ .error .rewardsUnderflow ∧
          w.apply (msg, .redeemRewards account) ≠ .error .transferExceedsBalance := by
  obtain ⟨lost, hsound⟩ := h.sound
  obtain ⟨B, hB⟩ := hsound.solvent
  refine ⟨fun now ht S balance hS => ⟨fun supply hsupply => ?_, ?_⟩, fun msg account ht => ?_⟩
  · have hsum := hB.sum_rewards_le hsound.balanced hS
    have := hB.counted
    have := w.manager.accruedAt_le_pendingAt now
    rw [Ledger.totalRewardsSupply_ok hsupply]
    omega
  · exact (hB.sum_rewards_le hsound.balanced hS).trans (hB.accruedAt_le ht)
  · have hfails := hsound.redeem_fails ht account
    exact ⟨fun he => (hfails _ he).1 rfl, fun he => (hfails _ he).2 rfl⟩

def staked (amount : Nat) : List (Msg × Call) :=
  [(⟨1, 0, 10⟩, .setVaultFactory 2), (⟨1, 0, 10⟩, .setTrustedCodehash 3 true),
    (⟨1, 0, 10⟩, .setRewardsSupplier 6), (⟨2, 0, 11⟩, .registerVault 5 4 3),
    (⟨5, 3, 12⟩, .stake amount 0 0)]

theorem rewards_covered_half_way :
    ∃ w, Reachable w 13 ∧ w.manager.rewardsBalanceOf 18 5 = .ok 500 ∧ 500 ≤ w.karma := by
  obtain ⟨w, hreach, hbalance⟩ : ∃ w, Reachable w 13 ∧ w.manager.rewardsBalanceOf 18 5 = .ok 500 :=
    Runs.exists_reachable (fun _ _ _ h => h) (.init 0 ⟨1, 10, rfl⟩)
      (staked 100 ++ [(⟨6, 0, 13⟩, .setReward 1000 10)]) _ (by decide +kernel)
  have hS : ∀ v ∈ ({5} : Finset Address), w.manager.rewardsBalanceOf 18 v = .ok 500 := by
    simpa using hbalance
  have hle := ((rewards_covered hreach).1 18 (by decide) {5} (fun _ => 500) hS).2
  exact ⟨w, hreach, hbalance, by simpa using hle⟩

-- Counting

/-- With 2 · 10²⁷ shares a reward of one unit does not move the index, and is counted by every
update. -/
theorem accrued_exceeds_supplied :
    ∃ w now, Reachable w now ∧ w.supplied < w.manager.totalRewardsAccrued + w.redeemed := by
  obtain ⟨w, hreach, hw⟩ : ∃ w, Reachable w 15 ∧
      (w.supplied, w.manager.totalRewardsAccrued, w.redeemed) = (1, 3, 0) :=
    Runs.exists_reachable (fun _ _ _ h => h) (.init 0 ⟨1, 10, rfl⟩)
      (staked (10 ^ 27) ++ [(⟨6, 0, 13⟩, .setReward 1 1), (⟨7, 0, 14⟩, .updateRewards),
        (⟨7, 0, 14⟩, .updateRewards), (⟨7, 0, 15⟩, .updateRewards)]) _ (by decide +kernel)
  simp only [Prod.mk.injEq] at hw
  exact ⟨w, 15, hreach, by omega⟩

/-- The states of the runs in which every update of the index finds nothing pending, or
enough to move it. -/
def SteadilyReachable : Funding → (now : Nat) → Prop :=
  Runs.Reachable time Initial fun w tx w' =>
    (tx.2.updatesIndex = true → w.manager.IndexMoves tx.1.timestamp) ∧ w.apply tx = .ok w'

theorem SteadilyReachable.sound (h : SteadilyReachable w now) : Sound 0 w now := by
  refine Runs.Reachable.invariant ?_ ?_ h
  · exact fun w t hw => hw.sound t
  · rintro w t tx w' hsound ht ⟨hmoves, hs⟩
    have hdust : (if tx.2.updatesIndex then w.manager.dust tx.1.timestamp else 0) = 0 := by
      split
      · exact (hmoves ‹_›).dust_eq_zero
      · rfl
    have hsound' := hsound.apply ht hs
    rw [hdust] at hsound'
    exact hsound'

/-- No reward is counted twice. -/
theorem accrued_le_supplied (h : SteadilyReachable w now) :
    w.manager.totalRewardsAccrued + w.redeemed ≤ w.supplied := by
  obtain ⟨B, hB⟩ := h.sound.solvent
  have := hB.counted
  have := hB.funded
  omega

theorem accrued_le_supplied_redeemed :
    ∃ w, SteadilyReachable w 18 ∧ w.manager.totalRewardsAccrued = 0 ∧ w.redeemed = 500 ∧
      w.manager.totalRewardsAccrued + w.redeemed ≤ w.supplied := by
  obtain ⟨w, hreach, hw⟩ : ∃ w, SteadilyReachable w 18 ∧
      (w.manager.totalRewardsAccrued, w.redeemed) = (0, 500) :=
    Runs.exists_reachable_guarded
      (fun w tx => tx.2.updatesIndex = true → w.manager.IndexMoves tx.1.timestamp) .paused
      (fun _ _ _ hmoves h => ⟨of_decide_eq_true hmoves, h⟩)
      (.init 0 ⟨1, 10, rfl⟩) (staked 100 ++ [(⟨6, 0, 13⟩, .setReward 1000 10),
        (⟨4, 0, 18⟩, .redeemRewards 4)]) _ (by decide +kernel)
  simp only [Prod.mk.injEq] at hw
  exact ⟨w, hreach, hw.1, hw.2, accrued_le_supplied hreach⟩

end Funding

end StatusNetwork.Staking
