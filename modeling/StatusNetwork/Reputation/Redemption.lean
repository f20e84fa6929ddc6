import StatusNetwork.Reputation.Supply
import StatusNetwork.Staking.VaultRegistry

/-!
# What is reported and what is redeemed

A redemption updates the index and then one vault after the other, and the points each vault
earns change the shares the index is computed from. The views compute the index for every
vault anew. They agree (`Ledger.redeemRewards_view`), because the index does not move again
within a block. A slash works on the tokens there are once all rewards are redeemed, which are
the balance that was reported before.
-/

namespace StatusNetwork.Staking

namespace Ledger

variable {l l' u : Ledger}

theorem rewardsBalanceOf_congr (hindex : l.rewardIndex now = .ok (a, index))
    (hindex' : l'.rewardIndex now = .ok (a', index)) (hdata : l'.vaultData v = l.vaultData v) :
    l'.rewardsBalanceOf now v = l.rewardsBalanceOf now v := by
  simp only [rewardsBalanceOf, vaultPendingRewards, hindex, hindex', hdata, ok_bind]

theorem updateVault_view (h : l.updateVault now v force = .ok l') :
    (∃ a, l.rewardIndex now = .ok (a, l.lastRewardIndex + l.increment now)) ∧
      l.rewardsBalanceOf now v = .ok (l'.vaultData v).rewardsAccrued := by
  simp only [updateVault, bind_eq_ok] at h
  obtain ⟨pending, hpending, rewards, hrewards, mp, -, h⟩ := h
  refine ⟨?_, ?_⟩
  · simp only [vaultPendingRewards, bind_eq_ok] at hpending
    obtain ⟨⟨a, index⟩, hindex, -⟩ := hpending
    obtain ⟨-, rfl⟩ := rewardIndex_ok hindex
    exact ⟨a, hindex⟩
  · rw [rewardsBalanceOf, hpending, ok_bind, hrewards]
    split at h
    · simp only [bind_eq_ok] at h
      obtain ⟨_, -, _, -, ⟨⟩⟩ := h
      simp [setVault]
    · cases h
      simp [setVault]

/-- A redemption from `l` that has got to `u`: the index is up to date, and the vaults `vs` are
still to come. -/
structure Redeeming (now : Nat) (l : Ledger) (vs : List Address) (u : Ledger) : Prop where
  balanced : u.Balanced
  settled : u.increment now = 0
  index : u.lastRewardIndex = l.lastRewardIndex + l.increment now
  data : ∀ v ∈ vs, u.vaultData v = l.vaultData v

theorem Redeeming.redeemVault (h : Redeeming now l (v :: vs) u) (hv : v ∉ vs)
    (hindex : l.rewardIndex now = .ok (a, l.lastRewardIndex + l.increment now))
    (hs : redeemVault now (u, n) v = .ok (u', n')) :
    (do let b ← l.rewardsBalanceOf now v; add n b) = .ok n' ∧ Redeeming now l vs u' := by
  obtain ⟨u₁, hvault, -, hadd, ⟨⟩⟩ := redeemVault_ok hs
  obtain ⟨⟨a', hindex'⟩, hview⟩ := updateVault_view hvault
  have hsettled := settled_updateVault h.balanced h.settled hvault
  rw [h.settled, Nat.add_zero, h.index] at hindex'
  have hsame := rewardsBalanceOf_congr hindex hindex' (h.data v List.mem_cons_self)
  refine ⟨?_, (h.balanced.updateVault hvault).payOut _ _, hsettled, ?_, fun x hx => ?_⟩
  · rw [← hsame, hview, ok_bind, hadd]
  · obtain ⟨mp, time, -, -, rfl⟩ := updateVault_ok hvault
    exact h.index
  · have hne : x ≠ v := fun he => hv (he ▸ hx)
    rw [← h.data x (List.mem_cons_of_mem v hx), ← updateVault_other hvault hne]
    simp [payOut, setVault, hne]

theorem Redeeming.redeemVaults (h : Redeeming now l vs u) (hnodup : vs.Nodup)
    (hindex : l.rewardIndex now = .ok (a, l.lastRewardIndex + l.increment now))
    (hs : vs.foldlM (Ledger.redeemVault now) (u, n) = .ok (u', n')) :
    vs.foldlM (fun total v => do
      let b ← l.rewardsBalanceOf now v
      add total b) n = .ok n' := by
  induction vs generalizing u n with
  | nil =>
    cases hs
    rfl
  | cons v vs ih =>
    simp only [List.foldlM_cons, bind_eq_ok] at hs ⊢
    obtain ⟨⟨u₁, n₁⟩, hvault, hs⟩ := hs
    obtain ⟨hv, hnodup⟩ := List.nodup_cons.mp hnodup
    obtain ⟨hview, hnext⟩ := h.redeemVault hv hindex hvault
    simp only [bind_eq_ok] at hview
    exact ⟨n₁, hview, ih hnext hnodup hs⟩

theorem redeemRewards_view (hb : l.Balanced) (hnodup : vs.Nodup)
    (hs : l.redeemRewards now vs = .ok (l', r)) :
    vs.foldlM (fun total v => do
      let b ← l.rewardsBalanceOf now v
      add total b) 0 = .ok r := by
  simp only [Ledger.redeemRewards, bind_eq_ok] at hs
  obtain ⟨l₁, hupdate, hs⟩ := hs
  obtain rfl := updateRewardIndex_ok hupdate
  simp only [updateRewardIndex, bind_eq_ok] at hupdate
  obtain ⟨⟨a, index⟩, hindex, -⟩ := hupdate
  obtain ⟨-, rfl⟩ := rewardIndex_ok hindex
  have hstart : Redeeming now l vs (l.advance now) :=
    ⟨hb.advance, l.advance_settled now, rfl, fun _ _ => rfl⟩
  exact hstart.redeemVaults hnodup hindex hs

end Ledger

theorem StakeManager.redeemRewards_view {s s' : StakeManager} (hb : s.toLedger.Balanced)
    (hw : s.toRegistry.WellFormed) (h : s.redeemRewards msg account = .ok (s', r)) :
    s.rewardsBalanceOfAccount msg.timestamp account = .ok r := by
  simp only [StakeManager.redeemRewards, bind_eq_ok] at h
  obtain ⟨-, -, ⟨l, n⟩, hredeem, ⟨⟩⟩ := h
  exact Ledger.redeemRewards_view hb (hw.nodup account) hredeem

end StatusNetwork.Staking

namespace StatusNetwork.Reputation

open Checked (value)
open Karma (Pays)
open Staking (Address StakeManager)
open Token (single)

-- Distributors

namespace Distributor

variable {c : Distributor}

def Kept : Distributor → Prop
  | .stakeManager s => s.toLedger.Balanced ∧ s.toRegistry.WellFormed
  | .simple _ => True

theorem callStakeManager_kept (h : (stakeManager s).Kept)
    (hs : callStakeManager s msg a = .ok (c', payment)) (hfresh : a.Fresh s) : c'.Kept := by
  simp only [callStakeManager, bind_eq_ok, mapError_eq_ok] at hs
  obtain ⟨⟨s', r⟩, hcall, hs⟩ := hs
  have hkept : (stakeManager s').Kept :=
    ⟨h.1.step (StakeManager.call_step hcall), StakeManager.call_wellFormed hcall h.2 hfresh⟩
  cases a <;> cases hs <;> exact hkept

theorem Kept.call (h : c.Kept) (hs : c.call sender now a = .ok (c', payment))
    (hfresh : a.Fresh c) : c'.Kept := by
  cases c with
  | stakeManager s =>
    cases a with
    | setReward | redeemRewards => exact callStakeManager_kept h hs trivial
    | stakeManager codehash call => exact callStakeManager_kept h hs (hfresh s rfl)
    | setRewardsSupplier | setRole | mint => cases hs
  | simple s =>
    cases a with
    | setReward | redeemRewards | setRewardsSupplier | setRole | mint =>
      obtain ⟨s', -, ⟨⟩⟩ := map_eq_ok.mp hs
      trivial
    | stakeManager => cases hs

theorem redeem_view (h : c.Kept) (hs : c.call sender now (.redeemRewards account) = .ok (c', p)) :
    c.rewardsBalanceOfAccount now account = .ok (paid p) ∧ ∀ x ∈ p, x.account = account := by
  cases c with
  | stakeManager s =>
    simp only [call, callStakeManager, bind_eq_ok, mapError_eq_ok] at hs
    obtain ⟨⟨s', r⟩, hcall, ⟨⟩⟩ := hs
    have hview := StakeManager.redeemRewards_view h.1 h.2 hcall
    refine ⟨?_, by simp⟩
    simp only [rewardsBalanceOfAccount, mapError_eq_ok]
    exact hview
  | simple s =>
    obtain ⟨⟨s', r⟩, hredeem, ⟨⟩⟩ := map_eq_ok.mp hs
    simp only [SimpleKarmaDistributor.redeemRewards] at hredeem
    split at hredeem
    · rename_i hzero
      cases hredeem
      refine ⟨?_, by simp⟩
      simp only [rewardsBalanceOfAccount, hzero]
      rfl
    · obtain ⟨_, -, ⟨⟩⟩ := bind_eq_ok.mp hredeem
      exact ⟨rfl, by simp⟩

end Distributor

-- What every transaction keeps

namespace Karma

variable {s : Karma}

structure Configured (s : Karma) : Prop where
  nodup : s.rewardDistributors.Nodup
  slash_le : s.slashPercentage ≤ MAX_SLASH_PERCENTAGE
  reward_le : s.slashRewardPercentage ≤ MAX_SLASH_PERCENTAGE
  supply_le : s.totalSupply ≤ maxSupply

theorem Configured.pays (h : s.Configured) (hp : Pays now out paid s s')
    (hle : s'.totalSupply ≤ maxSupply) : s'.Configured := by
  refine ⟨?_, ?_, ?_, hle⟩ <;> rw [hp.eq]
  · exact h.nodup
  · exact h.slash_le
  · exact h.reward_le

theorem removed_nodup {l : List Address} (h : l.Nodup) (hd : d ∈ l) :
    (l.set (l.idxOf d) (l.getLastD 0)).dropLast.Nodup := by
  have hswap : Staking.Registry.swapRemove d l = (l.set (l.idxOf d) (l.getLastD 0)).dropLast := by
    have hfind : l.findIdx? (· = d) = some (l.idxOf d) := by
      rw [List.findIdx?_eq_some_iff_findIdx_eq]
      exact ⟨List.idxOf_lt_length_of_mem hd, rfl⟩
    rw [Staking.Registry.swapRemove, hfind]
  rw [← hswap, (Staking.Registry.swapRemove_perm d l).nodup_iff]
  exact h.erase d

end Karma

namespace System

variable {w w' u : System} {k : Karma}

structure Settled (w : System) : Prop where
  sound : w.karma.Sound
  configured : w.karma.Configured
  kept : ∀ d c, w.distributor d = some c → c.Kept

theorem Initial.settled (h : Initial w) : w.Settled := by
  obtain ⟨⟨owner, hk⟩, hd⟩ := h
  refine ⟨?_, ?_, fun d c hc => ?_⟩
  · rw [hk]
    exact .empty
  · rw [hk]
    exact ⟨List.nodup_nil, by simp [Karma.initialized, MAX_SLASH_PERCENTAGE],
      by simp [Karma.initialized, MAX_SLASH_PERCENTAGE], Nat.zero_le _⟩
  · rcases hd d c hc with ⟨owner, max, rfl⟩ | ⟨owner, rfl⟩
    · exact ⟨.empty, .empty⟩
    · trivial

theorem redeemFrom_view (h : u.Settled) (hne : account ≠ d)
    (hactive : ∀ c, u.distributor d = some c → c.isPaused = false)
    (hs : redeemFrom env account u d = .ok u') :
    ∃ n, u.reported env.now account d = .ok n ∧
      u'.karma.balances account = u.karma.balances account + n ∧
      u'.karma = { u.karma with toToken := u'.karma.toToken } ∧
      ∀ b, b ≠ d → u'.distributor b = u.distributor b := by
  simp only [redeemFrom, bind_eq_ok, distributorAt_ok] at hs
  obtain ⟨c, hc, hs⟩ := hs
  rw [if_pos (hactive c hc)] at hs
  simp only [callDistributor, bind_eq_ok, distributorAt_ok] at hs
  obtain ⟨c₁, hc₁, ⟨c', payment⟩, hcall, hs⟩ := hs
  obtain rfl : c = c₁ := Option.some.inj (hc.symm.trans hc₁)
  obtain ⟨hview, hto⟩ := Distributor.redeem_view (h.kept d c hc) hcall
  have hreported : u.reported env.now account d = .ok (Distributor.paid payment) := by
    rw [reported, distributorAt_ok.mpr hc, ok_bind, hview]
  refine ⟨_, hreported, ?_⟩
  cases payment with
  | none =>
    cases hs
    exact ⟨rfl, rfl, fun b hb => Function.update_of_ne hb _ _⟩
  | some p =>
    obtain ⟨karma, htransfer, ⟨⟩⟩ := bind_eq_ok.mp hs
    have hk := (Karma.transfer_pays h.sound htransfer).1
    refine ⟨?_, hk.eq, fun b hb => Function.update_of_ne hb _ _⟩
    have hbalance := hk.balances account
    rw [hto p rfl] at hbalance
    simpa [single, hne, Distributor.paid] using hbalance

theorem amountToSlash_ok {s : Karma} (h : s.Configured) (hs : s.amountToSlash balance = .ok n) :
    n ≤ balance ∧ (0 < balance → 0 < n) := by
  simp only [Karma.amountToSlash, bind_eq_ok, Checked.mulDiv_eq_ok] at hs
  obtain ⟨_, ⟨-, -, rfl⟩, ⟨⟩⟩ := hs
  have hpart : balance * s.slashPercentage / MAX_SLASH_PERCENTAGE ≤ balance :=
    Nat.div_le_of_le_mul (by rw [Nat.mul_comm]; exact Nat.mul_le_mul_right balance h.slash_le)
  refine ⟨max_le hpart (min_le_right _ _), fun hpos => lt_max_of_lt_right (lt_min ?_ hpos)⟩
  decide

section
variable (h : w.Settled)
include h

theorem Settled.pays (hk : Pays now out paid w.karma k) (hle : k.totalSupply ≤ maxSupply) :
    Settled { w with karma := k } :=
  ⟨hk.continues.sound, h.configured.pays hk hle, h.kept⟩

theorem Settled.moves (hk : Pays now out paid w.karma k) (hle : ∑ a, paid a ≤ ∑ a, out a) :
    Settled { w with karma := k } :=
  h.pays hk ((Karma.Pays.supply_le h.sound hk hle).trans h.configured.supply_le)

theorem Settled.mints (hk : w.karma.mintTokens env account amount = .ok k) :
    Settled { w with karma := k } :=
  h.pays (Karma.mintTokens_pays h.sound hk) (Karma.mintTokens_supply_le hk)

theorem Settled.burns (hk : w.karma.burnTokens env account amount = .ok k) :
    Settled { w with karma := k } :=
  h.moves (Karma.burnTokens_pays h.sound hk) (by simp)

theorem Settled.transfers (hk : w.karma.transfer env sender dst amount = .ok k) :
    Settled { w with karma := k } :=
  h.moves (Karma.transfer_pays h.sound hk).1 (by simp [single])

theorem Settled.configure (htoken : k.toToken = w.karma.toToken) (hc : k.Configured) :
    Settled { w with karma := k } :=
  ⟨htoken ▸ h.sound, hc, h.kept⟩

theorem Settled.callDistributor (hfresh : ∀ c, w.distributor d = some c → a.Fresh c)
    (hs : w.callDistributor env sender d a = .ok w') : w'.Settled := by
  simp only [System.callDistributor, bind_eq_ok] at hs
  obtain ⟨c, hc, ⟨c', payment⟩, hcall, hs⟩ := hs
  rw [distributorAt_ok] at hc
  have hwritten : Settled { w with distributor := Function.update w.distributor d (some c') } := by
    refine ⟨h.sound, h.configured, fun b cb hb => ?_⟩
    by_cases hbd : b = d
    · subst hbd
      obtain rfl : c' = cb := by simpa using hb
      exact (h.kept b c hc).call hcall (hfresh c hc)
    · simp only [Function.update_of_ne hbd] at hb
      exact h.kept b cb hb
  cases payment with
  | none =>
    cases hs
    exact hwritten
  | some p =>
    obtain ⟨karma, htransfer, ⟨⟩⟩ := bind_eq_ok.mp hs
    exact hwritten.transfers htransfer

theorem Settled.redeemFrom (hs : redeemFrom env account w d = .ok w') : w'.Settled := by
  simp only [System.redeemFrom, bind_eq_ok] at hs
  obtain ⟨c, -, hs⟩ := hs
  split at hs
  · refine h.callDistributor (fun _ _ => ?_) hs
    trivial
  · cases hs
    exact h

theorem Settled.slashActual (hs : w.karma.slashActual env account recipient = .ok k) :
    Settled { w with karma := k } := by
  simp only [Karma.slashActual, bind_eq_ok] at hs
  obtain ⟨-, -, amount, -, reward, -, k₁, hburn, hs⟩ := hs
  have hburned := h.burns hburn
  split at hs
  · exact hburned.mints hs
  · cases hs
    exact hburned

theorem Settled.apply (hp : w.Possible tx) (hs : w.apply tx = .ok w') : w'.Settled := by
  have hc := h.configured
  cases apply_done h.sound hp hs with
  | slash hs =>
    simp only [slash, bind_eq_ok] at hs
    obtain ⟨-, -, w₁, hredeem, karma, hslash, ⟨⟩⟩ := hs
    have hredeemed : w₁.Settled :=
      Except.foldlM_invariant Settled (fun _ _ _ hu hr => hu.redeemFrom hr) h hredeem
    exact hredeemed.slashActual hslash
  | setReward hs =>
    simp only [setReward, bind_eq_ok] at hs
    obtain ⟨-, -, -, -, karma, hmint, hs⟩ := hs
    refine (h.mints hmint).callDistributor (fun _ _ => ?_) hs
    trivial
  | callDistributor hs => exact h.callDistributor (fun _ => hp.fresh) hs
  | pays hk _ hsupply => exact h.pays hk (hsupply.trans (max_le hc.supply_le le_rfl))
  | remove hd hburn hlist =>
    have hburned := h.burns hburn
    have hsame := (Karma.burnTokens_pays h.sound hburn).eq
    refine hburned.configure rfl ⟨?_, hburned.configured.slash_le, hburned.configured.reward_le,
      hburned.configured.supply_le⟩
    rw [hlist]
    exact Karma.removed_nodup hburned.configured.nodup (by rw [hsame]; exact hd)
  | settings htoken hlist hslash hreward =>
    exact h.configure htoken ⟨(nodup_distributors hc.nodup hlist).1,
      hslash.trans (max_le hc.slash_le le_rfl), hreward.trans (max_le hc.reward_le le_rfl),
      htoken ▸ hc.supply_le⟩

-- Redeeming from every distributor

omit h in
/-- Once everything is redeemed, an account holds what it was reported. -/
theorem redeemAll_view {ds : List Address} (h : u.Settled) (hnodup : ds.Nodup)
    (haccount : account ∉ ds)
    (hactive : ∀ d ∈ ds, ∀ c, u.distributor d = some c → c.isPaused = false)
    (hs : ds.foldlM (redeemFrom env account) u = .ok u') :
    u'.Settled ∧ u'.karma = { u.karma with toToken := u'.karma.toToken } ∧
      (∀ d ∈ ds, u.reported env.now account d = .ok (value (u.reported env.now account d))) ∧
      u'.karma.balances account = u.karma.balances account +
        (ds.map fun d => value (u.reported env.now account d)).sum := by
  induction ds generalizing u with
  | nil =>
    cases hs
    exact ⟨h, rfl, by simp, rfl⟩
  | cons d ds ih =>
    simp only [List.foldlM_cons, bind_eq_ok] at hs
    obtain ⟨u₁, hd, hs⟩ := hs
    obtain ⟨hnot, hnodup⟩ := List.nodup_cons.mp hnodup
    simp only [List.mem_cons, not_or] at haccount
    obtain ⟨n, hn, hbalance, hkarma, hothers⟩ :=
      redeemFrom_view h haccount.1 (hactive d List.mem_cons_self) hd
    have hsame (b : Address) (hb : b ∈ ds) : u₁.distributor b = u.distributor b :=
      hothers b fun he => hnot (he ▸ hb)
    have hreports (b : Address) (hb : b ∈ ds) :
        u₁.reported env.now account b = u.reported env.now account b := by
      simp only [reported, distributorAt, hsame b hb]
    have hactive' : ∀ b ∈ ds, ∀ c, u₁.distributor b = some c → c.isPaused = false :=
      fun b hb c hc => hactive b (List.mem_cons_of_mem d hb) c (hsame b hb ▸ hc)
    obtain ⟨hsettled, hkarma', heach, hsum⟩ :=
      ih (h.redeemFrom hd) hnodup haccount.2 hactive' hs
    have hvalue : value (u.reported env.now account d) = n := by rw [hn]; rfl
    refine ⟨hsettled, ?_, ?_, ?_⟩
    · rw [hkarma', hkarma]
    · intro b hb
      rcases List.mem_cons.mp hb with rfl | hb
      · rw [hvalue, hn]
      · rw [← hreports b hb, ← heach b hb]
    · rw [hsum, List.map_cons, List.sum_cons,
        List.map_congr_left fun b hb => congrArg value (hreports b hb)]
      omega

theorem Settled.balance_le (a : Address) : w.karma.balances a ≤ maxSupply := by
  have hle : w.karma.balances a ≤ ∑ b, w.karma.balances b :=
    Finset.single_le_sum (fun _ _ => Nat.zero_le _) (Finset.mem_univ a)
  rw [h.sound.total] at hle
  exact hle.trans h.configured.supply_le

/-- The distributors are asked to redeem, and none of them is skipped. -/
def AllActive (w : System) : Prop :=
  ∀ d ∈ w.karma.rewardDistributors, ∀ c, w.distributor d = some c → c.isPaused = false

theorem anyBalanceOf_view (haccount : account ∉ w.karma.rewardDistributors) (hactive : w.AllActive)
    (hs : w.karma.rewardDistributors.foldlM (redeemFrom env account) w = .ok w') :
    w.anyBalanceOf env.now account = .ok (w'.karma.balances account) := by
  obtain ⟨hsettled, -, heach, hsum⟩ := redeemAll_view h h.configured.nodup haccount hactive hs
  have hle := hsettled.balance_le account
  have hfit : maxSupply < Checked.size := by decide
  have hloop : w.karma.rewardDistributors.foldlM (fun total d => do
      let b ← w.reported env.now account d
      add total b) 0 = .ok _ := Checked.foldlM_add_eq heach (by omega)
  simp only [reported, bind_assoc] at hloop
  simp only [anyBalanceOf, hloop, ok_bind, Checked.add_eq_ok]
  simp only [reported] at hsum
  exact ⟨by omega, by omega⟩

-- Slashing

def calculateSlashAmount (w : System) (now : Nat) (account : Address) : Except Revert Nat := do
  let currentBalance ← w.anyBalanceOf now account
  w.karma.amountToSlash currentBalance

/-- A stake manager transfers what it reports. -/
theorem redeem_transfers (hd : w.distributor d = some (.stakeManager s))
    (hs : w.callDistributor env sender d (.redeemRewards account) = .ok w') :
    ∃ r, s.rewardsBalanceOfAccount env.now account = .ok r ∧
      w.karma.transfer env d account r = .ok w'.karma := by
  obtain ⟨hbalanced, hlisted⟩ := h.kept d _ hd
  simp only [callDistributor, distributorAt_ok.mpr hd, ok_bind, Distributor.call,
    Distributor.callStakeManager, bind_eq_ok, mapError_eq_ok] at hs
  obtain ⟨⟨c', payment⟩, ⟨⟨s', r⟩, hredeem, ⟨⟩⟩, hs⟩ := hs
  obtain ⟨karma, htransfer, ⟨⟩⟩ := bind_eq_ok.mp hs
  have hview := StakeManager.redeemRewards_view hbalanced hlisted hredeem
  exact ⟨r, hview, htransfer⟩

/-- All rewards are redeemed, `amount` of the account's tokens is burnt and `reward` minted. -/
def Slashes (w : System) (env : Env) (account recipient : Address) (amount reward : Nat)
    (w' : System) : Prop :=
  ∃ w₁ k, w.karma.rewardDistributors.foldlM (redeemFrom env account) w = .ok w₁ ∧
    w₁.karma.burnTokens env account amount = .ok k ∧
    (reward = 0 ∧ w'.karma = k ∨ k.mintTokens env recipient reward = .ok w'.karma)

theorem slash_view (haccount : account ∉ w.karma.rewardDistributors) (hactive : w.AllActive)
    (hs : w.slash env sender account recipient = .ok w') :
    ∃ amount reward balance, w.Slashes env account recipient amount reward w' ∧
      w.calculateSlashAmount env.now account = .ok amount ∧
      w.balanceOf env.now account = .ok balance ∧
      0 < amount ∧ amount ≤ balance ∧ reward ≤ amount := by
  simp only [slash, Karma.slashActual, bind_eq_ok, failIf_eq_ok, Checked.mulDiv_eq_ok] at hs
  obtain ⟨-, -, w₁, hredeem, karma, ⟨-, hpos, amount, hamount, reward, ⟨-, -, hreward⟩, k, hburn,
    hmint⟩, ⟨⟩⟩ := hs
  have hview := anyBalanceOf_view h haccount hactive hredeem
  obtain ⟨hsettled, hkarma, -, -⟩ := redeemAll_view h h.configured.nodup haccount hactive hredeem
  have hcalculated : w.calculateSlashAmount env.now account = .ok amount := by
    rw [calculateSlashAmount, hview, ← hamount, hkarma]
    rfl
  have hbalance : w.balanceOf env.now account = .ok (w₁.karma.balances account) := by
    rw [balanceOf, if_neg haccount, hview]
  obtain ⟨hle, hsome⟩ := amountToSlash_ok hsettled.configured hamount
  have hpart : reward ≤ amount := by
    rw [hreward]
    refine Nat.div_le_of_le_mul ?_
    rw [Nat.mul_comm]
    exact Nat.mul_le_mul_right amount hsettled.configured.reward_le
  split at hmint
  · exact ⟨amount, reward, _, ⟨w₁, k, hredeem, hburn, .inr hmint⟩, hcalculated, hbalance,
      hsome (Nat.pos_of_ne_zero hpos), hle, hpart⟩
  · cases hmint
    exact ⟨amount, 0, _, ⟨w₁, _, hredeem, hburn, .inl ⟨rfl, rfl⟩⟩, hcalculated, hbalance,
      hsome (Nat.pos_of_ne_zero hpos), hle, Nat.zero_le _⟩

end

-- Whole runs

def Attainable : System → (now : Nat) → Prop :=
  Runs.Reachable Tx.now Initial fun w tx w' => w.Possible tx ∧ w.apply tx = .ok w'

theorem Attainable.settled (h : Attainable w t) : w.Settled :=
  Runs.Reachable.invariant (I := fun w _ => w.Settled) (fun _ _ hinit => hinit.settled)
    (fun _ _ _ _ hw _ hs => hw.apply hs.1 hs.2) h

/-- A stake manager transfers to an account what it reports for it, and a slash burns what it is
announced to burn, as long as no distributor is paused. -/
theorem views_agree_with_execution (h : Attainable w t)
    (haccount : account ∉ w.karma.rewardDistributors) :
    (∀ env sender d s w', w.distributor d = some (.stakeManager s) →
      w.callDistributor env sender d (.redeemRewards account) = .ok w' →
      ∃ r, s.rewardsBalanceOfAccount env.now account = .ok r ∧
        w.karma.transfer env d account r = .ok w'.karma) ∧
    ∀ env sender recipient w', w.AllActive → w.slash env sender account recipient = .ok w' →
      ∃ amount reward balance, w.Slashes env account recipient amount reward w' ∧
        w.calculateSlashAmount env.now account = .ok amount ∧
        w.balanceOf env.now account = .ok balance ∧
        0 < amount ∧ amount ≤ balance ∧ reward ≤ amount := by
  have hsettled := h.settled
  exact ⟨fun _ _ _ _ _ hd hs => redeem_transfers hsettled hd hs,
    fun _ _ _ _ hactive hs => slash_view hsettled haccount hactive hs⟩

/-- The vault 5 of the account 4 stakes and earns 10²⁰ in the ten seconds from 13 on; the simple
distributor mints 10¹⁹ for the account. -/
def earning : List Tx :=
  [⟨1, ⟨10, false⟩, .addRewardDistributor 7⟩, ⟨1, ⟨10, false⟩, .addRewardDistributor 8⟩,
    ⟨1, ⟨10, false⟩, .setAllowedToTransfer 7 true⟩, ⟨1, ⟨10, false⟩, .setAllowedToTransfer 8 true⟩,
    ⟨1, ⟨10, false⟩, .callDistributor 7 (.stakeManager 0 (.setRewardsSupplier 9))⟩,
    ⟨1, ⟨10, false⟩, .callDistributor 7 (.stakeManager 0 (.setVaultFactory 2))⟩,
    ⟨1, ⟨10, false⟩, .callDistributor 7 (.stakeManager 0 (.setTrustedCodehash 3 true))⟩,
    ⟨1, ⟨10, false⟩, .callDistributor 8 (.setRewardsSupplier 9)⟩,
    ⟨2, ⟨11, false⟩, .callDistributor 7 (.stakeManager 0 (.registerVault 5 4 3))⟩,
    ⟨5, ⟨12, false⟩, .callDistributor 7 (.stakeManager 3 (.stake 100 0 0))⟩,
    ⟨1, ⟨13, false⟩, .setReward 7 (10 ^ 20) 10⟩, ⟨1, ⟨13, false⟩, .setReward 8 (10 ^ 19) 0⟩,
    ⟨1, ⟨13, false⟩, .callDistributor 8 (.mint 4 (10 ^ 19))⟩]

theorem views_agree_with_execution_earning : ∃ w w' amount reward, Attainable w 13 ∧
    w.slash ⟨18, false⟩ 1 4 2 = .ok w' ∧ w.Slashes ⟨18, false⟩ 4 2 amount reward w' ∧
      w.calculateSlashAmount 18 4 = .ok amount ∧ 0 < amount ∧ reward ≤ amount := by
  obtain ⟨w, hreach, hw⟩ : ∃ w, Attainable w 13 ∧
      (w.karma.rewardDistributors, (w.distributor 7).map (·.isPaused),
        (w.distributor 8).map (·.isPaused), (w.slash ⟨18, false⟩ 1 4 2).toOption.isSome) =
        ([7, 8], some false, some false, true) :=
    Runs.exists_reachable_guarded Ordinary .noFunction
      (fun _ _ _ hordinary h => ⟨Ordinary.possible hordinary, h⟩)
      (.init 0 deployedWithBoth_initial) earning _ (by decide +kernel)
  simp only [Prod.mk.injEq] at hw
  obtain ⟨hlist, hmanager, hsimple, hslash⟩ := hw
  obtain ⟨w', hslash⟩ := Option.isSome_iff_exists.mp hslash
  rw [Except.toOption_eq_some] at hslash
  have hactive : w.AllActive := by
    intro d hd c hc
    rw [hlist] at hd
    rcases List.mem_cons.mp hd with rfl | hd
    · rw [hc] at hmanager
      exact Option.some.inj hmanager
    · obtain rfl := List.mem_singleton.mp hd
      rw [hc] at hsimple
      exact Option.some.inj hsimple
  have haccount : (4 : Address) ∉ w.karma.rewardDistributors := by
    rw [hlist]
    decide
  obtain ⟨amount, reward, balance, hslashes, hamount, -, hpos, -, hle⟩ :=
    (views_agree_with_execution hreach haccount).2 _ 1 2 w' hactive hslash
  exact ⟨w, w', amount, reward, hreach, hslash, hslashes, hamount, hpos, hle⟩

end System

end StatusNetwork.Reputation
