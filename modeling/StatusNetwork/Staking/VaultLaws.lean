import StatusNetwork.Staking.Shares
import StatusNetwork.Staking.StakeVault

/-!
# What the operations do to stakes and tokens

The stake the manager records for each vault and the owner it records, after every
operation; the balances and allowances of the staking token after a transfer.
-/

namespace StatusNetwork.Staking

open Function (update update_eq_self)

-- What the manager's operations do to the recorded stakes

namespace Ledger

variable {l : Ledger}

def staked (l : Ledger) (v : Address) : Nat := (l.vaultData v).stakedBalance

theorem staked_setVault (l : Ledger) (v : Address) (d : VaultData) :
    (l.setVault v d).staked = update l.staked v d.stakedBalance := by
  funext w
  by_cases hw : w = v
  · subst hw
    simp [staked, setVault]
  · simp [staked, setVault, hw]

theorem updateVault_same (h : l.updateVault now v force = .ok l') : l'.staked = l.staked :=
  funext fun w => updateVault_staked h w

theorem advance_updateVault_same (h : (l.advance now).updateVault now v force = .ok l') :
    l'.staked = l.staked :=
  updateVault_same (l := l.advance now) h

theorem Operates.staked (h : Operates now l v n l') : l'.staked = update l.staked v n := by
  cases h with
  | restake hvault =>
    have hsame := advance_updateVault_same hvault
    rw [← hsame, ← show _ = (l.vaultData v).stakedBalance from congrFun hsame v]
    exact staked_setVault ..
  | reduce hvault hr =>
    have hsame := advance_updateVault_same hvault
    obtain ⟨mp, maxMP, -, -, -, -, -, -, rfl⟩ := reduceStake_ok hr
    rw [← hsame, ← show _ = (l.vaultData v).stakedBalance from congrFun hsame v]
    exact staked_setVault ..

theorem leave_vaultData (h : l.leave v = .ok l') : l'.vaultData = update l.vaultData v .empty := by
  obtain ⟨l₁, ⟨rfl, -⟩ | hr, rfl⟩ := leave_ok h
  · rfl
  · obtain ⟨mp, maxMP, -, -, -, -, -, -, rfl⟩ := reduceStake_ok hr
    exact Function.update_idem _ _ _

theorem leave_staked (h : l.leave v = .ok l') : l'.staked = update l.staked v 0 := by
  refine Eq.trans ?_ (staked_setVault l v .empty)
  exact congrArg (fun data w => (data w).stakedBalance) (leave_vaultData h)

theorem Visits.staked (h : Visits now l vs paid l') : l'.staked = l.staked := by
  induction h with
  | nil => rfl
  | cons hvault _ _ _ ih =>
    rw [ih, ← updateVault_same hvault]
    exact (staked_setVault ..).trans (update_eq_self ..)

theorem migrateToVault_staked (h : l.migrateToVault now v migrateTo = .ok l') :
    l.staked migrateTo = 0 ∧ l'.staked = update (update l.staked migrateTo (l.staked v)) v 0 := by
  obtain ⟨l₁, hvault, hempty, rfl⟩ := migrateToVault_ok h
  have hsame := advance_updateVault_same hvault
  refine ⟨hempty, ?_⟩
  rw [move, staked_setVault, staked_setVault, ← hsame]
  rfl

end Ledger

namespace StakeManager

variable {s : StakeManager}

theorem stake_ok (h : s.stake msg amount period u = .ok (s', r)) :
    s.vaultOwners msg.sender ≠ 0 ∧ r = max u msg.timestamp + period ∧
      ∃ l, s' = { s with toLedger := l } ∧
        l.staked = update s.staked msg.sender (s.staked msg.sender + amount) := by
  simp only [stake, bind_eq_ok] at h
  obtain ⟨_, hactive, -, -, ⟨l, _⟩, h, ⟨⟩⟩ := h
  obtain ⟨hl, hr⟩ := Ledger.stake_operates h
  exact ⟨onlyActiveVault_ok hactive, hr, l, rfl, hl.staked⟩

theorem lock_ok (h : s.lock msg period u = .ok (s', r)) :
    s.vaultOwners msg.sender ≠ 0 ∧ r = max u msg.timestamp + period ∧
      ∃ l, s' = { s with toLedger := l } ∧ l.staked = s.staked := by
  simp only [lock, bind_eq_ok] at h
  obtain ⟨_, hactive, -, -, ⟨l, _⟩, h, ⟨⟩⟩ := h
  obtain ⟨hl, hr⟩ := Ledger.lock_operates h
  exact ⟨onlyActiveVault_ok hactive, hr, l, rfl, hl.staked.trans (update_eq_self ..)⟩

theorem unstake_ok (h : s.unstake msg amount = .ok s') :
    s.vaultOwners msg.sender ≠ 0 ∧ ∃ l, s' = { s with toLedger := l } ∧
      l.staked = update s.staked msg.sender (s.staked msg.sender - amount) := by
  simp only [unstake, bind_eq_ok] at h
  obtain ⟨_, hactive, l, h, ⟨⟩⟩ := h
  exact ⟨onlyActiveVault_ok hactive, l, rfl, (Ledger.unstake_operates h).staked⟩

theorem leave_ok (h : s.leave msg = .ok s') :
    ∃ l, s' = { s with toLedger := l, toRegistry := s.deregister msg.sender } ∧
      l.staked = update s.staked msg.sender 0 := by
  simp only [leave, bind_eq_ok] at h
  obtain ⟨-, -, l, h, ⟨⟩⟩ := h
  exact ⟨l, rfl, Ledger.leave_staked h⟩

theorem migrateToVault_ok (h : s.migrateToVault msg migrateTo = .ok s') :
    s.vaultOwners msg.sender ≠ 0 ∧ s.vaultOwners migrateTo ≠ 0 ∧ s.staked migrateTo = 0 ∧
      ∃ l, s' = { s with toLedger := l, toRegistry := s.deregister msg.sender } ∧
        l.staked = update (update s.staked migrateTo (s.staked msg.sender)) msg.sender 0 := by
  simp only [migrateToVault, bind_eq_ok, failIf_eq_ok] at h
  obtain ⟨_, hactive, -, htarget, l, h, ⟨⟩⟩ := h
  obtain ⟨hempty, hstaked⟩ := Ledger.migrateToVault_staked h
  exact ⟨onlyActiveVault_ok hactive, htarget, hempty, l, rfl, hstaked⟩

theorem createMigrationVault_ok (h : s.createMigrationVault msg vault = .ok s') :
    s.vaultOwners msg.sender ≠ 0 ∧
      s' = { s with toRegistry := s.register vault (s.vaultOwners msg.sender) } := by
  simp only [createMigrationVault, bind_eq_ok] at h
  obtain ⟨_, hactive, ⟨⟩⟩ := h
  exact ⟨onlyActiveVault_ok hactive, rfl⟩

theorem registerVault_ok (h : s.registerVault msg vault owner codehash = .ok s') :
    s.vaultOwners vault = 0 ∧ s' = { s with toRegistry := s.register vault owner } := by
  simp only [registerVault, bind_eq_ok, failIf_eq_ok] at h
  obtain ⟨-, -, -, -, -, -, -, -, -, hnew, ⟨⟩⟩ := h
  exact ⟨not_not.mp hnew, rfl⟩

/-- A sender that is no registered vault changes neither the stakes nor the owners. -/
theorem call_frame (h : s.call msg c = .ok (s', r)) (hsender : s.vaultOwners msg.sender = 0)
    (hstake : s.staked msg.sender = 0) (hregister : ∀ v o k, c ≠ .registerVault v o k)
    (hemergency : c ≠ .enableEmergencyMode) :
    s'.staked = s.staked ∧ s'.vaultOwners = s.vaultOwners ∧
      s'.emergencyModeEnabled = s.emergencyModeEnabled := by
  cases call_done h with
  | setsUp _ hledger hregistry hmode =>
    exact ⟨by rw [hledger], by rw [hregistry], hmode hemergency⟩
  | registerVault => exact absurd rfl (hregister _ _ _)
  | createMigrationVault hactive | stake hactive | lock hactive | unstake hactive
  | migrateToVault hactive => exact absurd hsender hactive
  | leave hl =>
    refine ⟨?_, (congrArg _ hsender.symm).trans (update_eq_self _ _), rfl⟩
    have hleft := Ledger.leave_staked hl
    rwa [← hstake, update_eq_self] at hleft
  | updateRewards hl =>
    obtain rfl := Ledger.updateRewardIndex_ok hl
    exact ⟨rfl, rfl, rfl⟩
  | setReward hl =>
    obtain ⟨remaining, -, rfl⟩ := Ledger.setReward_ok hl
    exact ⟨rfl, rfl, rfl⟩
  | updateAccount hl => exact ⟨(Ledger.updateAccount_visits hl).staked, rfl, rfl⟩
  | redeemRewards hl => exact ⟨(Ledger.redeemRewards_visits hl).staked, rfl, rfl⟩
  | updateVault hindex hl =>
    obtain rfl := Ledger.updateRewardIndex_ok hindex
    exact ⟨Ledger.advance_updateVault_same hl, rfl, rfl⟩

end StakeManager

-- What the token's operations do to the holders

namespace Token

variable {t : Token}

theorem transfer_ok (h : t.transfer src dst n = .ok t') :
    n ≤ t.balanceOf src ∧ t'.allowance = t.allowance ∧
      ∀ a, t'.balanceOf a + (if a = src then n else 0) =
        t.balanceOf a + (if a = dst then n else 0) := by
  simp only [transfer, bind_eq_ok, failIf_eq_ok, Nat.not_lt] at h
  obtain ⟨-, hle, ⟨⟩⟩ := h
  exact ⟨hle, rfl, Balances.move_add hle⟩

theorem transfer_others (h : t.transfer src dst n = .ok t') (ha : a ≠ src) :
    t.balanceOf a ≤ t'.balanceOf a := by
  have := (transfer_ok h).2.2 a
  simp only [ha, if_false] at this
  omega

theorem transferFrom_ok (h : t.transferFrom sender src dst n = .ok t')
    (ha : ∀ spender, t.allowance a spender = 0) :
    (∀ spender, t'.allowance a spender = 0) ∧
      t.balanceOf a + (if a = dst then n else 0) ≤ t'.balanceOf a := by
  simp only [transferFrom, bind_eq_ok, failIf_eq_ok, Nat.not_lt] at h
  obtain ⟨-, hallowed, t₁, h, ⟨⟩⟩ := h
  obtain ⟨-, hallow, hmove⟩ := transfer_ok h
  have hmove := hmove a
  refine ⟨fun spender => ?_, ?_⟩
  · dsimp only
    rw [hallow]
    by_cases hs : a = src
    · subst hs
      by_cases hp : spender = sender
      · subst hp
        simp [ha]
      · simp [hp, ha]
    · rw [Function.update_of_ne hs]
      exact ha spender
  · by_cases hs : a = src
    · subst hs
      rw [ha] at hallowed
      obtain rfl := Nat.le_zero.mp hallowed
      simp only [ite_self] at hmove ⊢
      omega
    · simp only [hs, if_false] at hmove
      dsimp only
      omega

end Token

end StatusNetwork.Staking
