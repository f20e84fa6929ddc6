import StatusNetwork.Reputation.System
import StatusNetwork.Staking.Funding
import StatusNetwork.Staking.Registry

/-!
# What a distributor owes

A distributor with `n` tokens owes at most as much: a reward set adds to the tokens what it
adds to the debt, a redemption pays both down, and nothing else makes the debt grow. What it
reports for different accounts adds up to no more than `n`, and to no more than the supply it
reports.
-/

namespace StatusNetwork.Staking

namespace Ledger

/-- What is reported for different accounts is due to different vaults. -/
theorem Solvent.sum_accounts_le {s : StakeManager}
    (h : s.toLedger.Solvent t supplied redeemed lost B) (hb : s.toLedger.Balanced)
    (hw : s.toRegistry.WellFormed) {balance : Address → Nat}
    (hS : ∀ a ∈ S, s.rewardsBalanceOfAccount now a = .ok (balance a)) :
    ∑ a ∈ S, balance a ≤ B + s.accruedAt now := by
  have hsum (a : Address) (ha : a ∈ S) : balance a =
      ∑ v ∈ (s.vaults a).toFinset, Checked.value (s.toLedger.rewardsBalanceOf now v) := by
    rw [List.sum_toFinset _ (hw.nodup a), (Checked.foldlM_add_ok (hS a ha)).2, Nat.zero_add]
  have hdisjoint : (S : Set Address).PairwiseDisjoint fun a => (s.vaults a).toFinset := by
    intro a _ a' _ hne
    rw [Function.onFun, Finset.disjoint_left]
    intro v hv hv'
    rw [List.mem_toFinset] at hv hv'
    exact hne ((hw.owned a v hv).1.symm.trans (hw.owned a' v hv').1)
  rw [Finset.sum_congr rfl hsum, ← Finset.sum_biUnion hdisjoint]
  refine h.sum_rewards_le hb fun v hv => ?_
  obtain ⟨a, ha, hv⟩ := Finset.mem_biUnion.mp hv
  exact (Checked.foldlM_add_ok (hS a ha)).1 v (List.mem_toFinset.mp hv)

end Ledger

/-- The manager's debt is at most `n`. -/
structure StakeManager.Owes (t n : Nat) (s : StakeManager) : Prop where
  balanced : s.toLedger.Balanced
  listed : s.toRegistry.WellFormed
  solvent : ∃ supplied redeemed lost B, s.toLedger.Solvent t supplied redeemed lost B ∧
    supplied ≤ n + redeemed

namespace StakeManager

variable {s : StakeManager}

theorem Owes.initialized : (StakeManager.initialized owner m).Owes t 0 :=
  ⟨.empty, .empty, 0, 0, 0, 0, .empty, le_rfl⟩

theorem Owes.call (h : s.Owes t n) (ht : t ≤ msg.timestamp) (hs : s.call msg c = .ok (s', r))
    (hfresh : c.Fresh s) :
    (c.effect r).redeemed ≤ n + (c.effect r).funded ∧
      s'.Owes msg.timestamp (n + (c.effect r).funded - (c.effect r).redeemed) := by
  have hstep := call_step hs
  obtain ⟨supplied, redeemed, lost, B, hsolvent, hle⟩ := h.solvent
  obtain ⟨B', hB'⟩ := hsolvent.step h.balanced ht hstep
  have := hB'.funded
  refine ⟨by omega, h.balanced.step hstep, call_wellFormed hs h.listed hfresh, _, _, _, B', hB', ?_⟩
  omega

theorem Owes.sum_le (h : s.Owes t n) (ht : t ≤ now) {balance : Address → Nat}
    (hS : ∀ a ∈ S, s.rewardsBalanceOfAccount now a = .ok (balance a))
    (hsupply : s.totalRewardsSupply now = .ok supply) :
    ∑ a ∈ S, balance a ≤ n ∧ ∑ a ∈ S, balance a ≤ supply := by
  obtain ⟨supplied, redeemed, lost, B, hsolvent, hle⟩ := h.solvent
  have hsum := hsolvent.sum_accounts_le h.balanced h.listed hS
  have := hsolvent.accruedAt_le ht
  have := hsolvent.counted
  have := s.accruedAt_le_pendingAt now
  have := Ledger.totalRewardsSupply_ok hsupply
  exact ⟨by omega, by omega⟩

end StakeManager

end StatusNetwork.Staking

namespace StatusNetwork.Reputation

open Staking (Address StakeManager)

-- The simple distributor

namespace SimpleKarmaDistributor

variable {s : SimpleKarmaDistributor}

structure Owes (n : Nat) (s : SimpleKarmaDistributor) : Prop where
  minted : ∑ a, s.balances a = s.mintedSupply
  covered : s.mintedSupply + s.availableSupply ≤ n

theorem Owes.initialized : (SimpleKarmaDistributor.initialized owner).Owes 0 := by
  refine ⟨?_, le_rfl⟩
  simp [SimpleKarmaDistributor.initialized]

theorem Owes.setReward (h : s.Owes n) (hs : s.setReward sender amount = .ok s') :
    s'.Owes (n + amount) := by
  simp only [SimpleKarmaDistributor.setReward, bind_eq_ok, Checked.add_eq_ok] at hs
  obtain ⟨-, -, -, -, _, ⟨-, rfl⟩, ⟨⟩⟩ := hs
  have := h.covered
  refine ⟨h.minted, ?_⟩
  dsimp only
  omega

theorem Owes.mint (h : s.Owes n) (hs : s.mint sender account amount = .ok s') : s'.Owes n := by
  simp only [SimpleKarmaDistributor.mint, bind_eq_ok, Checked.add_eq_ok, Checked.sub_eq_ok] at hs
  obtain ⟨-, -, -, -, -, -, -, -, _, ⟨-, rfl⟩, _, ⟨-, rfl⟩, _, ⟨hle, rfl⟩, ⟨⟩⟩ := hs
  have := h.covered
  refine ⟨?_, ?_⟩
  · exact (Balances.sum_give ..).trans (congrArg (· + amount) h.minted)
  · dsimp only
    omega

theorem Owes.redeemRewards (h : s.Owes n) (hs : s.redeemRewards account = .ok (s', paid)) :
    paid.getD 0 ≤ n ∧ s'.Owes (n - paid.getD 0) := by
  simp only [SimpleKarmaDistributor.redeemRewards] at hs
  split at hs
  · cases hs
    exact ⟨Nat.zero_le _, h⟩
  · simp only [bind_eq_ok, Checked.sub_eq_ok] at hs
    obtain ⟨_, ⟨hle, rfl⟩, ⟨⟩⟩ := hs
    have hcovered := h.covered
    have hsum := Balances.sum_take (le_refl (s.balances account))
    rw [Nat.sub_self, h.minted] at hsum
    refine ⟨?_, ?_, ?_⟩
    · simp only [Option.getD_some]
      omega
    · dsimp only
      omega
    · simp only [Option.getD_some]
      omega

theorem Owes.sum_le (h : s.Owes n) (S : Finset Address) :
    ∑ a ∈ S, s.balances a ≤ n ∧ ∑ a ∈ S, s.balances a ≤ s.mintedSupply := by
  have hle : ∑ a ∈ S, s.balances a ≤ ∑ a, s.balances a :=
    Finset.sum_le_sum_of_subset (Finset.subset_univ S)
  have := h.minted
  have := h.covered
  exact ⟨by omega, by omega⟩

end SimpleKarmaDistributor

-- Any distributor

namespace Distributor

variable {c : Distributor}

def Owes (t n : Nat) : Distributor → Prop
  | .stakeManager s => s.Owes t n
  | .simple s => s.Owes n

def Call.funded : Call → Nat
  | .setReward amount _ => amount
  | .stakeManager _ (.setReward amount _) => amount
  | _ => 0

def Call.Fresh (c : Distributor) : Call → Prop
  | .stakeManager _ call => ∀ s, c = .stakeManager s → call.Fresh s
  | _ => True

def paid (payment : Option Payment) : Nat := (payment.map (·.amount)).getD 0

theorem callStakeManager_owes (h : s.Owes t n) (ht : t ≤ msg.timestamp)
    (hs : callStakeManager s msg a = .ok (c', payment)) (hfresh : a.Fresh s) :
    paid payment ≤ n + (a.effect 0).funded ∧
      c'.Owes msg.timestamp (n + (a.effect 0).funded - paid payment) := by
  simp only [callStakeManager, bind_eq_ok, mapError_eq_ok] at hs
  obtain ⟨⟨s', r⟩, hcall, hs⟩ := hs
  have howes := h.call ht hcall hfresh
  cases a <;> cases hs <;> exact howes

/-- A call adds to the debt what it announces and takes off what it pays. -/
theorem Owes.call (h : c.Owes t n) (ht : t ≤ now) (hs : c.call sender now a = .ok (c', payment))
    (hfresh : a.Fresh c) :
    paid payment ≤ n + a.funded ∧ c'.Owes now (n + a.funded - paid payment) := by
  cases c with
  | stakeManager s =>
    cases a with
    | setReward amount duration => exact callStakeManager_owes h ht hs trivial
    | redeemRewards account => exact callStakeManager_owes h ht hs trivial
    | stakeManager codehash call =>
      have howes := callStakeManager_owes h ht hs (hfresh s rfl)
      have hfunded : (Call.stakeManager codehash call).funded = (call.effect 0).funded := by
        cases call <;> rfl
      rw [hfunded]
      exact howes
    | setRewardsSupplier | setRole | mint => cases hs
  | simple s =>
    cases a with
    | setReward amount duration =>
      obtain ⟨s', hk, ⟨⟩⟩ := map_eq_ok.mp hs
      exact ⟨Nat.zero_le _, SimpleKarmaDistributor.Owes.setReward h hk⟩
    | redeemRewards account =>
      obtain ⟨⟨s', r⟩, hk, ⟨⟩⟩ := map_eq_ok.mp hs
      have howes := SimpleKarmaDistributor.Owes.redeemRewards h hk
      cases r <;> exact howes
    | mint account amount =>
      obtain ⟨s', hk, ⟨⟩⟩ := map_eq_ok.mp hs
      exact ⟨Nat.zero_le _, SimpleKarmaDistributor.Owes.mint h hk⟩
    | setRewardsSupplier | setRole =>
      obtain ⟨s', hk, ⟨⟩⟩ := map_eq_ok.mp hs
      simp only [SimpleKarmaDistributor.setRewardsSupplier, SimpleKarmaDistributor.setRole,
        bind_eq_ok, Except.ok.injEq] at hk
      have hsame : s'.balances = s.balances ∧ s'.mintedSupply = s.mintedSupply ∧
          s'.availableSupply = s.availableSupply := by grind
      obtain ⟨hb, hm, ha⟩ := hsame
      refine ⟨Nat.zero_le _, ?_, ?_⟩
      · rw [hb, hm]
        exact h.minted
      · rw [hm, ha]
        exact h.covered
    | stakeManager => cases hs

theorem Owes.later (h : c.Owes t n) (ht : t ≤ now) : c.Owes now n := by
  cases c with
  | stakeManager s =>
    obtain ⟨supplied, redeemed, lost, B, hsolvent, hle⟩ := h.solvent
    exact ⟨h.balanced, h.listed, supplied, redeemed, lost, B, hsolvent.later ht, hle⟩
  | simple s => exact h

theorem Owes.sum_le (h : c.Owes t n) (ht : t ≤ now) {balance : Address → Nat}
    (hS : ∀ a ∈ S, c.rewardsBalanceOfAccount now a = .ok (balance a))
    (hsupply : c.totalRewardsSupply now = .ok supply) :
    ∑ a ∈ S, balance a ≤ n ∧ ∑ a ∈ S, balance a ≤ supply := by
  cases c with
  | stakeManager s =>
    simp only [rewardsBalanceOfAccount, totalRewardsSupply, mapError_eq_ok] at hS hsupply
    exact StakeManager.Owes.sum_le h ht hS hsupply
  | simple s =>
    cases hsupply
    have hbalance (a : Address) (ha : a ∈ S) : balance a = s.balances a :=
      (Except.ok.inj (hS a ha)).symm
    rw [Finset.sum_congr rfl hbalance]
    exact SimpleKarmaDistributor.Owes.sum_le h S

end Distributor

end StatusNetwork.Reputation
