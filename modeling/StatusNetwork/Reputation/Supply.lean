import StatusNetwork.Reputation.Backing
import StatusNetwork.Reputation.VotingPower

/-!
# The supply covers the balances

Every distributor holds the tokens it owes, so the balances that Karma reports, actual and
virtual, add up to no more than the supply it reports. Slashing a distributor burns tokens it
owes: nothing in Karma rules that out, and the runs in which it does not happen are the ones the
result is about.
-/

namespace StatusNetwork.Reputation

open Staking (Address)
open Token (single)

namespace System

variable {w w' : System}

-- The invariant

structure Backed (t : Nat) (w : System) : Prop where
  sound : w.karma.Sound
  nodup : w.karma.rewardDistributors.Nodup
  /-- Before a distributor is added, it owes nothing. -/
  owes : ∀ d c, w.distributor d = some c → ∃ n, c.Owes t n ∧ n ≤ w.karma.balances d ∧
    (d ∉ w.karma.rewardDistributors → n = 0)

theorem Initial.backed (h : Initial w) : w.Backed t := by
  obtain ⟨⟨owner, hk⟩, hd⟩ := h
  refine ⟨?_, ?_, fun d c hc => ⟨0, ?_, Nat.zero_le _, fun _ => rfl⟩⟩
  · rw [hk]
    exact .empty
  · rw [hk]
    exact List.nodup_nil
  · rcases hd d c hc with ⟨owner, max, rfl⟩ | ⟨owner, rfl⟩
    · exact Staking.StakeManager.Owes.initialized
    · exact SimpleKarmaDistributor.Owes.initialized

theorem distributorAt_ok : w.distributorAt d = .ok c ↔ w.distributor d = some c := by
  unfold distributorAt
  split <;> simp [*]

section
variable (h : w.Backed t)
include h

theorem Backed.later (ht : t ≤ now) : w.Backed now := by
  refine ⟨h.sound, h.nodup, fun d c hc => ?_⟩
  obtain ⟨n, howes, hle, hnew⟩ := h.owes d c hc
  exact ⟨n, howes.later ht, hle, hnew⟩

theorem Backed.pays (hk : Karma.Pays now out paid w.karma k)
    (hout : ∀ d ∈ w.karma.rewardDistributors, w.distributor d ≠ none → out d = 0) :
    Backed t { w with karma := k } := by
  have hlist : k.rewardDistributors = w.karma.rewardDistributors := by rw [hk.eq]
  refine ⟨hk.continues.sound, hlist ▸ h.nodup, fun d c hc => ?_⟩
  obtain ⟨n, howes, hle, hnew⟩ := h.owes d c hc
  refine ⟨n, howes, ?_, fun hd => hnew (hlist ▸ hd)⟩
  by_cases hd : d ∈ w.karma.rewardDistributors
  · have := hk.balances d
    have := hout d hd (by simp [show w.distributor d = some c from hc])
    dsimp only
    omega
  · rw [hnew hd]
    exact Nat.zero_le _

theorem Backed.callDistributor (ht : t ≤ env.now)
    (howes : ∀ c, w.distributor d = some c → ∃ n, c.Owes t n ∧
      n + a.funded ≤ w.karma.balances d ∧ (d ∉ w.karma.rewardDistributors → n + a.funded = 0))
    (hfresh : ∀ c, w.distributor d = some c → a.Fresh c)
    (hs : w.callDistributor env sender d a = .ok w') :
    w'.Backed env.now ∧ w'.karma.rewardDistributors = w.karma.rewardDistributors := by
  simp only [System.callDistributor, bind_eq_ok] at hs
  obtain ⟨c, hc, ⟨c', payment⟩, hcall, hs⟩ := hs
  rw [distributorAt_ok] at hc
  obtain ⟨n, hn, hle, hnew⟩ := howes c hc
  obtain ⟨hpaid, hn'⟩ := hn.call ht hcall (hfresh c hc)
  -- the distributor is written before the transfer
  have hwritten (karma : Karma) (hsound : karma.Sound)
      (hlist : karma.rewardDistributors = w.karma.rewardDistributors)
      (hself : n + a.funded ≤ karma.balances d + Distributor.paid payment)
      (hothers : ∀ a, a ≠ d → w.karma.balances a ≤ karma.balances a) :
      Backed env.now
        { w with karma, distributor := Function.update w.distributor d (some c') } := by
    refine ⟨hsound, hlist ▸ h.nodup, fun b cb hb => ?_⟩
    by_cases hbd : b = d
    · subst hbd
      obtain rfl : c' = cb := by simpa using hb
      refine ⟨_, hn', ?_, fun hd => ?_⟩
      · dsimp only
        omega
      · have := hnew (hlist ▸ hd)
        omega
    · simp only [Function.update_of_ne hbd] at hb
      obtain ⟨m, hm, hmle, hmnew⟩ := h.owes b cb hb
      exact ⟨m, hm.later ht, hmle.trans (hothers b hbd), fun hd => hmnew (hlist ▸ hd)⟩
  cases payment with
  | none =>
    cases hs
    exact ⟨hwritten w.karma h.sound rfl hle fun _ _ => le_rfl, rfl⟩
  | some p =>
    obtain ⟨karma, htransfer, ⟨⟩⟩ := bind_eq_ok.mp hs
    obtain ⟨hk, -⟩ := Karma.transfer_pays h.sound htransfer
    have hlist : karma.rewardDistributors = w.karma.rewardDistributors := by rw [hk.eq]
    refine ⟨hwritten karma hk.continues.sound hlist ?_ fun b hb => ?_, hlist⟩
    · have := hk.balances d
      simp only [single, if_true] at this
      simp only [Distributor.paid, Option.map_some, Option.getD_some]
      omega
    · have := hk.balances b
      simp only [single, hb, if_false] at this
      omega

-- Transactions

def Tx.Regular (tx : Tx) : Prop :=
  match tx.action with
  | .removeRewardDistributor _ => False
  | .callDistributor _ c => c.funded = 0
  | _ => True

def Spares (w : System) (tx : Tx) : Prop :=
  match tx.action with
  | .slash account _ => account ∉ w.karma.rewardDistributors
  | _ => True

theorem Backed.callPlain (ht : t ≤ env.now) (ha : a.funded = 0)
    (hfresh : ∀ c, w.distributor d = some c → a.Fresh c)
    (hs : w.callDistributor env sender d a = .ok w') :
    w'.Backed env.now ∧ w'.karma.rewardDistributors = w.karma.rewardDistributors := by
  refine h.callDistributor ht (fun c hc => ?_) hfresh hs
  rw [ha]
  exact h.owes d c hc

omit h in
theorem Backed.redeemFrom (h : w.Backed env.now) (hs : redeemFrom env account w d = .ok w') :
    w'.Backed env.now ∧ w'.karma.rewardDistributors = w.karma.rewardDistributors := by
  simp only [System.redeemFrom, bind_eq_ok] at hs
  obtain ⟨c, -, hs⟩ := hs
  split at hs
  · refine h.callPlain le_rfl rfl (fun _ _ => ?_) hs
    trivial
  · cases hs
    exact ⟨h, rfl⟩

theorem Backed.slash (ht : t ≤ env.now) (haccount : account ∉ w.karma.rewardDistributors)
    (hs : w.slash env sender account recipient = .ok w') : w'.Backed env.now := by
  simp only [System.slash, bind_eq_ok] at hs
  obtain ⟨-, -, w₁, hredeem, karma, hslash, ⟨⟩⟩ := hs
  obtain ⟨h₁, hlist⟩ := Except.foldlM_invariant (fun u : System =>
      u.Backed env.now ∧ u.karma.rewardDistributors = w.karma.rewardDistributors)
    (fun _ _ _ hu hr => ⟨(hu.1.redeemFrom hr).1, (hu.1.redeemFrom hr).2.trans hu.2⟩)
    ⟨h.later ht, rfl⟩ hredeem
  simp only [Karma.slashActual, bind_eq_ok] at hslash
  obtain ⟨-, -, amount, -, reward, -, k, hburn, hslash⟩ := hslash
  have hburned := Karma.burnTokens_pays h₁.sound hburn
  have h₂ : Backed env.now { w₁ with karma := k } := by
    refine h₁.pays hburned fun d hd _ => if_neg ?_
    rintro rfl
    exact haccount (hlist ▸ hd)
  split at hslash
  · exact h₂.pays (Karma.mintTokens_pays h₂.sound hslash) fun _ _ _ => rfl
  · cases hslash
    exact h₂

theorem Backed.setReward (ht : t ≤ env.now)
    (hs : w.setReward env sender d amount duration = .ok w') : w'.Backed env.now := by
  simp only [System.setReward, bind_eq_ok, failIf_eq_ok, not_not] at hs
  obtain ⟨-, -, -, hd, karma, hmint, hs⟩ := hs
  have hminted := Karma.mintTokens_pays h.sound hmint
  have hlist : karma.rewardDistributors = w.karma.rewardDistributors := by rw [hminted.eq]
  refine ((h.pays hminted fun _ _ _ => rfl).callDistributor ht (fun c hc => ?_)
    (fun _ _ => ?_) hs).1
  · obtain ⟨n, howes, hle, -⟩ := h.owes d c hc
    refine ⟨n, howes, ?_, fun hnot => absurd (hlist ▸ hd) hnot⟩
    have hbalance := hminted.balances d
    simp only [single, if_true] at hbalance
    simp only [Distributor.Call.funded]
    omega
  · trivial

theorem Backed.settings (htoken : k.toToken = w.karma.toToken) (hnodup : k.rewardDistributors.Nodup)
    (hlist : w.karma.rewardDistributors ⊆ k.rewardDistributors) :
    Backed t { w with karma := k } := by
  refine ⟨htoken ▸ h.sound, hnodup, fun d c hc => ?_⟩
  obtain ⟨n, howes, hle, hnew⟩ := h.owes d c hc
  refine ⟨n, howes, ?_, fun hd => hnew fun hmem => hd (hlist hmem)⟩
  rw [htoken]
  exact hle

end

theorem Possible.fresh (hp : w.Possible ⟨sender, env, .callDistributor d a⟩)
    (hd : w.distributor d = some c) : a.Fresh c := by
  obtain ⟨-, -, hp⟩ := hp
  cases a with
  | stakeManager codehash call =>
    rintro s rfl
    cases call with
    | registerVault | createMigrationVault => first | exact hp | exact hp s hd
    | _ => trivial
  | _ => trivial

theorem nodup_distributors (h : l.Nodup) (hl : l' = l ∨ ∃ d ∉ l, l' = l ++ [d]) :
    l'.Nodup ∧ l ⊆ l' := by
  obtain rfl | ⟨d, hd, rfl⟩ := hl
  · exact ⟨h, List.Subset.refl _⟩
  · exact ⟨List.nodup_append'.mpr ⟨h, List.nodup_singleton d, by simpa using hd⟩,
      List.subset_append_left _ _⟩

theorem Backed.apply (h : w.Backed t) (ht : t ≤ tx.now) (hp : w.Possible tx) (hr : tx.Regular)
    (hspares : w.Spares tx) (hs : w.apply tx = .ok w') : w'.Backed tx.now := by
  have hlater := h.later ht
  cases apply_done h.sound hp hs with
  | slash hs => exact h.slash ht hspares hs
  | setReward hs => exact h.setReward ht hs
  | callDistributor hs => exact (h.callPlain ht hr (fun _ => hp.fresh) hs).1
  | remove _ _ _ => exact absurd hr id
  | pays hk hout _ =>
    refine hlater.pays hk fun d _ hd => ?_
    by_contra hne
    exact hd (hout d hne ▸ hp.2.1)
  | settings htoken hlist _ _ =>
    obtain ⟨hnodup, hsub⟩ := nodup_distributors h.nodup hlist
    exact hlater.settings htoken hnodup hsub

-- Balances and supply

def reported (w : System) (now : Nat) (account d : Address) : Except Revert Nat := do
  let distributor ← w.distributorAt d
  distributor.rewardsBalanceOfAccount now account

def reportedSupply (w : System) (now : Nat) (d : Address) : Except Revert Nat := do
  let distributor ← w.distributorAt d
  distributor.totalRewardsSupply now

open Checked (value)

theorem balanceOf_ok (h : w.balanceOf now a = .ok b) :
    (a ∈ w.karma.rewardDistributors → b = 0) ∧ (a ∉ w.karma.rewardDistributors →
      (∀ d ∈ w.karma.rewardDistributors, w.reported now a d = .ok (value (w.reported now a d))) ∧
      b = w.karma.balances a +
        (w.karma.rewardDistributors.map fun d => value (w.reported now a d)).sum) := by
  unfold balanceOf at h
  split at h
  · rename_i hmem
    cases h
    exact ⟨fun _ => rfl, fun hnot => absurd hmem hnot⟩
  · rename_i hnot
    refine ⟨fun hmem => absurd hmem hnot, fun _ => ?_⟩
    simp only [anyBalanceOf, bind_eq_ok, Checked.add_eq_ok] at h
    obtain ⟨external, hloop, -, rfl⟩ := h
    have hloop : w.karma.rewardDistributors.foldlM (fun total d => do
        let b ← w.reported now a d
        add total b) 0 = .ok external := by
      simpa only [reported, bind_assoc] using hloop
    obtain ⟨heach, hsum⟩ := Checked.foldlM_add_ok hloop
    exact ⟨heach, by rw [hsum, Nat.zero_add]⟩

theorem supplyLoop_ok {l : List Address} (h : l.foldlM (fun (p : Nat × Nat) d => do
      let distributor ← w.distributorAt d
      let supply ← distributor.totalRewardsSupply now
      let externalSupply ← add p.1 supply
      let totalDistributorBalance ← add p.2 (w.karma.balances d)
      .ok (externalSupply, totalDistributorBalance)) p = .ok p') :
    (∀ d ∈ l, w.reportedSupply now d = .ok (value (w.reportedSupply now d))) ∧
      p'.1 = p.1 + (l.map fun d => value (w.reportedSupply now d)).sum ∧
      p'.2 = p.2 + (l.map w.karma.balances).sum := by
  induction l generalizing p with
  | nil =>
    cases h
    exact ⟨by simp, rfl, rfl⟩
  | cons d l ih =>
    simp only [List.foldlM_cons, bind_eq_ok, Checked.add_eq_ok] at h
    obtain ⟨_, ⟨c, hc, supply, hsupply, _, ⟨-, rfl⟩, _, ⟨-, rfl⟩, ⟨⟩⟩, h⟩ := h
    obtain ⟨hrest, hexternal, hbalance⟩ := ih h
    have hd : w.reportedSupply now d = .ok supply := by
      rw [reportedSupply, hc]
      exact hsupply
    have hvalue : value (w.reportedSupply now d) = supply := by rw [hd]; rfl
    refine ⟨?_, ?_, ?_⟩
    · rintro x (_ | ⟨_, hx⟩)
      · rw [hvalue, hd]
      · exact hrest x ‹_›
    · simp only [List.map_cons, List.sum_cons, hvalue]
      omega
    · simp only [List.map_cons, List.sum_cons]
      omega

theorem totalSupply_ok (h : w.totalSupply now = .ok supply) :
    (∀ d ∈ w.karma.rewardDistributors,
      w.reportedSupply now d = .ok (value (w.reportedSupply now d))) ∧
    (w.karma.rewardDistributors.map w.karma.balances).sum ≤ w.karma.totalSupply ∧
    supply = w.karma.totalSupply - (w.karma.rewardDistributors.map w.karma.balances).sum +
      min (w.karma.rewardDistributors.map fun d => value (w.reportedSupply now d)).sum
        (w.karma.rewardDistributors.map w.karma.balances).sum := by
  simp only [totalSupply, bind_eq_ok, Checked.sub_eq_ok, Checked.add_eq_ok] at h
  obtain ⟨⟨external, held⟩, hloop, _, ⟨hle, rfl⟩, -, rfl⟩ := h
  obtain ⟨heach, hexternal, hheld⟩ := supplyLoop_ok hloop
  simp only [Nat.zero_add] at hexternal hheld
  refine ⟨heach, hheld ▸ hle, ?_⟩
  split <;> omega

theorem reported_ok (h : w.reported now a d = .ok n) :
    ∃ c, w.distributor d = some c ∧ c.rewardsBalanceOfAccount now a = .ok n := by
  simp only [reported, bind_eq_ok, distributorAt_ok] at h
  exact h

theorem reportedSupply_ok (h : w.reportedSupply now d = .ok n) :
    ∃ c, w.distributor d = some c ∧ c.totalRewardsSupply now = .ok n := by
  simp only [reportedSupply, bind_eq_ok, distributorAt_ok] at h
  exact h

/-- What a distributor reports for different accounts is covered by its tokens and by the supply
it reports. -/
theorem Backed.sum_reported_le (h : w.Backed t) (ht : t ≤ now)
    (hS : ∀ a ∈ S, w.reported now a d = .ok (value (w.reported now a d)))
    (hsupply : w.reportedSupply now d = .ok (value (w.reportedSupply now d))) :
    ∑ a ∈ S, value (w.reported now a d) ≤ w.karma.balances d ∧
      ∑ a ∈ S, value (w.reported now a d) ≤ value (w.reportedSupply now d) := by
  obtain ⟨c, hc, hsupply⟩ := reportedSupply_ok hsupply
  obtain ⟨n, howes, hle, -⟩ := h.owes d c hc
  have hc' (a : Address) (ha : a ∈ S) :
      c.rewardsBalanceOfAccount now a = .ok (value (w.reported now a d)) := by
    obtain ⟨c', hc', hreported⟩ := reported_ok (hS a ha)
    rw [hc] at hc'
    cases hc'
    exact hreported
  obtain ⟨htokens, hsupplied⟩ := howes.sum_le ht hc' hsupply
  exact ⟨htokens.trans hle, hsupplied⟩

theorem Backed.sum_balances_le (h : w.Backed t) (ht : t ≤ now) {balance : Address → Nat}
    (hS : ∀ a ∈ S, w.balanceOf now a = .ok (balance a)) (hsupply : w.totalSupply now = .ok supply) :
    ∑ a ∈ S, balance a ≤ supply := by
  obtain ⟨hsupplies, hheld, rfl⟩ := totalSupply_ok hsupply
  generalize hD : w.karma.rewardDistributors.toFinset = D at *
  have hmem (d : Address) : d ∈ D ↔ d ∈ w.karma.rewardDistributors := by
    rw [← hD, List.mem_toFinset]
  have hlist (f : Address → Nat) : (w.karma.rewardDistributors.map f).sum = ∑ d ∈ D, f d := by
    rw [← hD, List.sum_toFinset _ h.nodup]
  simp only [hlist] at hheld ⊢
  -- accounts that are distributors have nothing
  have hsplit : ∑ a ∈ S, balance a = ∑ a ∈ S \ D, balance a := by
    symm
    refine Finset.sum_subset Finset.sdiff_subset fun a ha hnot => ?_
    refine (balanceOf_ok (hS a ha)).1 ?_
    rw [← hmem]
    by_contra hD'
    exact hnot (Finset.mem_sdiff.mpr ⟨ha, hD'⟩)
  have hother (a : Address) (ha : a ∈ S \ D) := (balanceOf_ok (hS a (Finset.mem_sdiff.mp ha).1)).2
    (by rw [← hmem]; exact (Finset.mem_sdiff.mp ha).2)
  have hbalance (a : Address) (ha : a ∈ S \ D) :
      balance a = w.karma.balances a + ∑ d ∈ D, value (w.reported now a d) := by
    rw [(hother a ha).2, hlist]
  have hvirtual (d : Address) (hd : d ∈ D) := h.sum_reported_le ht
    (fun a ha => (hother a ha).1 d ((hmem d).mp hd)) (hsupplies d ((hmem d).mp hd))
  have hactual : ∑ a ∈ S \ D, w.karma.balances a + ∑ d ∈ D, w.karma.balances d ≤
      w.karma.totalSupply := by
    rw [← Finset.sum_union Finset.sdiff_disjoint, ← h.sound.total]
    exact Finset.sum_le_sum_of_subset (Finset.subset_univ _)
  have hle : ∑ d ∈ D, ∑ a ∈ S \ D, value (w.reported now a d) ≤ ∑ d ∈ D, w.karma.balances d :=
    Finset.sum_le_sum fun d hd => (hvirtual d hd).1
  have hle' : ∑ d ∈ D, ∑ a ∈ S \ D, value (w.reported now a d) ≤
      ∑ d ∈ D, value (w.reportedSupply now d) :=
    Finset.sum_le_sum fun d hd => (hvirtual d hd).2
  rw [hsplit, Finset.sum_congr rfl hbalance, Finset.sum_add_distrib, Finset.sum_comm]
  omega

-- Whole runs

def Reachable : System → (now : Nat) → Prop :=
  Runs.Reachable Tx.now Initial fun w tx w' =>
    w.Possible tx ∧ tx.Regular ∧ w.apply tx = .ok w'

def SparinglyReachable : System → (now : Nat) → Prop :=
  Runs.Reachable Tx.now Initial fun w tx w' =>
    w.Possible tx ∧ tx.Regular ∧ w.Spares tx ∧ w.apply tx = .ok w'

theorem SparinglyReachable.backed (h : SparinglyReachable w t) : w.Backed t := by
  refine Runs.Reachable.invariant (I := fun w t => w.Backed t) ?_ ?_ h
  · exact fun _ _ hinit => hinit.backed
  · rintro w t tx w' hbacked ht ⟨hp, hr, hspares, hs⟩
    exact hbacked.apply ht hp hr hspares hs

theorem balances_le_totalSupply (h : SparinglyReachable w t) (ht : t ≤ now) (S : Finset Address)
    (balance : Address → Nat) (hS : ∀ a ∈ S, w.balanceOf now a = .ok (balance a))
    (hsupply : w.totalSupply now = .ok supply) : ∑ a ∈ S, balance a ≤ supply :=
  h.backed.sum_balances_le ht hS hsupply

/-- Karma at 9 with a stake manager at 7 and a simple distributor at 8. -/
def deployedWithBoth : System :=
  ⟨9, .initialized 1, fun d =>
    if d = 7 then some (.stakeManager (.initialized 1 10))
    else if d = 8 then some (.simple (.initialized 1)) else none⟩

theorem deployedWithBoth_initial : Initial deployedWithBoth := by
  refine ⟨⟨1, rfl⟩, fun d c hc => ?_⟩
  simp only [deployedWithBoth] at hc
  split at hc
  · exact .inl ⟨1, 10, (Option.some.inj hc).symm⟩
  · split at hc
    · exact .inr ⟨1, (Option.some.inj hc).symm⟩
    · cases hc

def Ordinary (w : System) (tx : Tx) : Bool :=
  tx.sender ≠ 0 && (w.distributor tx.sender).isNone &&
    match tx.action with
    | .delegateBySig .. | .callDistributor _ (.stakeManager _ (.createMigrationVault _)) => false
    | .callDistributor _ (.stakeManager _ (.registerVault _ owner _)) => owner ≠ 0
    | _ => true

theorem Ordinary.possible (h : w.Ordinary tx = true) : w.Possible tx := by
  obtain ⟨sender, env, action⟩ := tx
  simp only [Ordinary, Bool.and_eq_true, decide_eq_true_eq, Option.isNone_iff_eq_none] at h
  obtain ⟨⟨h0, hnone⟩, haction⟩ := h
  refine ⟨h0, hnone, ?_⟩
  cases action with
  | delegateBySig => cases haction
  | callDistributor d c =>
    cases c with
    | stakeManager codehash call =>
      cases call with
      | registerVault => simpa using haction
      | createMigrationVault => cases haction
      | _ => trivial
    | _ => trivial
  | _ => trivial

instance (tx : Tx) : Decidable tx.Regular := by
  unfold Tx.Regular
  split <;> infer_instance

instance (w : System) (tx : Tx) : Decidable (w.Spares tx) := by
  unfold Spares
  split <;> infer_instance

def funding : List Tx :=
  [⟨1, ⟨10, false⟩, .addRewardDistributor 8⟩,
    ⟨1, ⟨10, false⟩, .callDistributor 8 (.setRewardsSupplier 9)⟩,
    ⟨1, ⟨11, false⟩, .setReward 8 1000 0⟩, ⟨1, ⟨12, false⟩, .callDistributor 8 (.mint 2 600)⟩]

theorem balances_le_totalSupply_funded :
    ∃ w, SparinglyReachable w 12 ∧ w.balanceOf 12 2 = .ok 600 ∧
      ∃ supply, w.totalSupply 12 = .ok supply ∧ ∑ _a ∈ ({2} : Finset Address), 600 ≤ supply := by
  obtain ⟨w, hreach, hw⟩ : ∃ w, SparinglyReachable w 12 ∧
      (w.balanceOf 12 2, w.totalSupply 12) = (.ok 600, .ok 600) :=
    Runs.exists_reachable_guarded (fun w tx => w.Ordinary tx ∧ tx.Regular ∧ w.Spares tx) .noFunction
      (fun _ _ _ hguard h =>
        have ⟨hordinary, hregular, hspares⟩ := of_decide_eq_true hguard
        ⟨Ordinary.possible hordinary, hregular, hspares, h⟩)
      (.init 0 deployedWithBoth_initial) funding _ (by decide +kernel)
  simp only [Prod.mk.injEq] at hw
  have hS : ∀ a ∈ ({2} : Finset Address), w.balanceOf 12 a = .ok 600 := by simpa using hw.1
  have hle := balances_le_totalSupply hreach le_rfl {2} (fun _ => 600) hS hw.2
  exact ⟨w, hreach, hw.1, 600, hw.2, hle⟩

/-- Slashing the distributor burns the tokens behind the 600 it has minted. -/
theorem slashed_distributor_breaks_supply :
    ∃ w, Reachable w 13 ∧ w.balanceOf 13 2 = .ok 600 ∧ w.totalSupply 13 = .ok 0 := by
  obtain ⟨w, hreach, hw⟩ : ∃ w, Reachable w 13 ∧
      (w.balanceOf 13 2, w.totalSupply 13) = (.ok 600, .ok 0) :=
    Runs.exists_reachable_guarded (fun w tx => w.Ordinary tx ∧ tx.Regular) .noFunction
      (fun _ _ _ hguard h =>
        have ⟨hordinary, hregular⟩ := of_decide_eq_true hguard
        ⟨Ordinary.possible hordinary, hregular, h⟩)
      (.init 0 deployedWithBoth_initial) (funding ++ [⟨1, ⟨13, false⟩, .slash 8 0⟩]) _
      (by decide +kernel)
  simp only [Prod.mk.injEq] at hw
  exact ⟨w, hreach, hw⟩

end System

end StatusNetwork.Reputation
