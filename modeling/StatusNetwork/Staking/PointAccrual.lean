import StatusNetwork.Base.Accrual
import StatusNetwork.Staking.VaultRegistry

/-!
# How multiplier points accrue

`_updateVault` credits a vault with the points its stake has earned since the last time it
was credited with any, and keeps that time as long as there is no whole point to credit. One
relation says what a call does to the data of a vault (`StakeManager.Change`); the bounds on
what accrues follow from it.
-/

namespace StatusNetwork.Staking

open Accrual (Meter Rate)

namespace VaultData

variable {d d' : VaultData}

def meter (d : VaultData) : Meter := ⟨d.mpAccrued, d.lastMPUpdateTime⟩

def rate (d : VaultData) : Rate := ⟨YEAR, d.stakedBalance, d.maxMP, by decide⟩

/-- What an update at `now` makes of `d`, up to the rewards. -/
structure Poked (now : Nat) (force : Bool) (d d' : VaultData) : Prop where
  staked : d'.stakedBalance = d.stakedBalance
  max : d'.maxMP = d.maxMP
  meter : d'.meter = d.rate.poke d.meter now force

section
variable (h : Poked now force d d')
include h

theorem Poked.rate_eq : d'.rate = d.rate := by
  simp [rate, h.staked, h.max]

theorem Poked.again (h' : Poked now false d' d'') : Poked now force d d'' := by
  refine ⟨h'.staked.trans h.staked, h'.max.trans h.max, ?_⟩
  rw [h'.meter, h.rate_eq, h.meter, Rate.poke_poke]

theorem Poked.last : d'.lastMPUpdateTime = now ∨ d'.lastMPUpdateTime = d.lastMPUpdateTime := by
  have hlast : d'.lastMPUpdateTime = (d.rate.poke d.meter now force).last := by
    rw [← h.meter]
    rfl
  rw [hlast]
  exact (d.rate.last_poke d.meter now force).imp_right (·.2)

theorem Poked.spends :
    YEAR * d.rate.gain d.meter now + d'.stakedBalance * (now - d'.lastMPUpdateTime) ≤
      d.stakedBalance * (now - d.lastMPUpdateTime) := by
  have hspends := d.rate.gain_spends d.meter now force
  rw [← h.meter] at hspends
  rw [h.staked]
  exact hspends

end

end VaultData

-- Updates

namespace Ledger

variable {l : Ledger}

theorem vaultPendingMP_eq (h : vaultPendingMP now d = .ok mp) : mp = d.rate.gain d.meter now := by
  unfold vaultPendingMP at h
  simp only [Rate.gain, VaultData.rate, VaultData.meter]
  split at h
  · rename_i hnow
    cases h
    simp [hnow]
  split at h
  · rename_i hnone
    cases h
    rcases hnone with hmax | hstaked
    · simp [hmax]
    · simp [hstaked]
  · simp only [calculateAccrual, accrueMP, bind_eq_ok, Checked.sub_eq_ok] at h
    obtain ⟨_, ⟨-, rfl⟩, h⟩ := h
    split at h
    · simp only [bind_eq_ok, Checked.sub_eq_ok, Checked.mulDiv_eq_ok] at h
      obtain ⟨_, ⟨-, -, rfl⟩, _, ⟨-, rfl⟩, ⟨⟩⟩ := h
      rfl
    · rename_i hfull
      cases h
      rw [Nat.sub_eq_zero_of_le (Nat.le_of_not_lt hfull), Nat.min_zero]

theorem updateVault_poked (h : l.updateVault now v force = .ok l') :
    (l.vaultData v).Poked now force (l'.vaultData v) := by
  simp only [updateVault, bind_eq_ok, Checked.add_eq_ok] at h
  obtain ⟨_, -, _, ⟨-, rfl⟩, mp, hmp, h⟩ := h
  have hgain : mp = (l.vaultData v).rate.gain (l.vaultData v).meter now := vaultPendingMP_eq hmp
  split at h
  · rename_i hmoves
    simp only [bind_eq_ok, Checked.add_eq_ok] at h
    obtain ⟨_, ⟨-, rfl⟩, _, ⟨-, rfl⟩, ⟨⟩⟩ := h
    refine ⟨by simp [setVault], by simp [setVault], ?_⟩
    rw [Rate.poke, if_pos (hgain ▸ hmoves), ← hgain]
    simp [setVault, VaultData.meter]
  · rename_i hstays
    cases h
    refine ⟨by simp [setVault], by simp [setVault], ?_⟩
    rw [Rate.poke, if_neg (hgain ▸ hstays)]
    simp [setVault, VaultData.meter]

theorem Visits.each (h : Visits now l vs paid l') (a : Address) :
    (a ∈ vs → (l.vaultData a).Poked now false (l'.vaultData a)) ∧
      (a ∉ vs → l'.vaultData a = l.vaultData a) := by
  induction h with
  | nil => exact ⟨by simp, fun _ => rfl⟩
  | @cons paid vs _ _ l v l₁ hvault _ _ _ ih =>
    obtain ⟨hin, hout⟩ := ih
    by_cases ha : a = v
    · subst ha
      have hpoked := updateVault_poked hvault
      have hpaid : (l.vaultData a).Poked now false ((l₁.payOut a paid).vaultData a) := by
        refine ⟨?_, ?_, hpoked.meter ▸ ?_⟩ <;>
          simp [payOut, setVault, VaultData.meter, hpoked.staked, hpoked.max]
      refine ⟨fun _ => ?_, fun hv => absurd List.mem_cons_self hv⟩
      by_cases hmem : a ∈ vs
      · exact hpaid.again (hin hmem)
      · rwa [hout hmem]
    · have hother : (l₁.payOut v paid).vaultData a = l₁.vaultData a := by
        simp [payOut, setVault, ha]
      rw [hother, updateVault_other hvault ha] at hin hout
      simpa [ha] using ⟨hin, hout⟩

theorem migrateToVault_target (h : l.migrateToVault now v migrateTo = .ok l')
    (hne : migrateTo ≠ v) : (l.vaultData v).Poked now false (l'.vaultData migrateTo) := by
  obtain ⟨l₁, hvault, -, rfl⟩ := migrateToVault_ok h
  simpa [move, setVault, hne] using updateVault_poked hvault

/-- An update after which a stake that grew is counted from now on. -/
def Restaked (now : Nat) (d d' : VaultData) : Prop :=
  ∃ force d₁, d.Poked now force d₁ ∧ d'.lastMPUpdateTime = d₁.lastMPUpdateTime ∧
    (d'.stakedBalance ≤ d.stakedBalance ∨ d'.lastMPUpdateTime = now)

theorem Operates.restaked (h : Operates now l v n l') :
    Restaked now (l.vaultData v) (l'.vaultData v) := by
  cases h with
  | @restake force l₁ amount _ _ hvault hforce =>
    have hpoked := updateVault_poked hvault
    refine ⟨force, _, hpoked, by simp [Ledger.restake, setVault], ?_⟩
    rcases hforce with rfl | rfl
    · left
      simpa [Ledger.restake, setVault] using hpoked.staked.le
    · right
      have hmeter := congrArg Meter.last hpoked.meter
      simpa [Ledger.restake, setVault, Rate.poke, VaultData.meter] using hmeter
  | reduce hvault hr =>
    have hpoked := updateVault_poked hvault
    obtain ⟨mp, maxMP, -, -, -, -, -, -, rfl⟩ := reduceStake_ok hr
    refine ⟨false, _, hpoked, by simp [setVault], .inl ?_⟩
    simp only [setVault, Function.update_self]
    exact (Nat.sub_le _ _).trans hpoked.staked.le

end Ledger

-- What a call does to a vault

namespace StakeManager

variable {s s' s₀ : StakeManager}

def Call.updates (s : StakeManager) (msg : Msg) (v : Address) : Call → Bool
  | .stake .. | .lock .. | .unstake _ | .migrateToVault _ => msg.sender = v
  | .updateVault vault => vault = v
  | .updateAccount account | .redeemRewards account => v ∈ s.vaults account
  | _ => false

/-- The points `_updateVault` adds to a vault. -/
def accrued (s : StakeManager) (msg : Msg) (c : Call) (v : Address) : Nat :=
  if c.updates s msg v then Checked.value (Ledger.vaultPendingMP msg.timestamp (s.vaultData v))
  else 0

/-- Calls that change the stake of a vault or its lock, or move it. -/
def Call.handles (msg : Msg) (v : Address) : Call → Bool
  | .stake .. | .lock .. | .unstake _ | .leave => msg.sender = v
  | .migrateToVault migrateTo => msg.sender = v ∨ migrateTo = v
  | _ => false

/-- What a call makes of the data of the vault `v`. -/
inductive Change (s : StakeManager) (msg : Msg) (c : Call) (v : Address) (d : VaultData) : Prop
  | kept : c.updates s msg v = false → d = s.vaultData v → Change s msg c v d
  | poked : c.updates s msg v = true → (s.vaultData v).Poked msg.timestamp false d →
    Change s msg c v d
  | restaked : c.handles msg v = true → Ledger.Restaked msg.timestamp (s.vaultData v) d →
    Change s msg c v d
  | emptied : c.handles msg v = true → d = .empty → Change s msg c v d
  | received : c = .migrateToVault v → msg.sender ≠ v →
    (s.vaultData msg.sender).Poked msg.timestamp false d → Change s msg c v d

theorem Call.updates_setsUp {c : Call} (h : c.setsUp = true) : c.updates s msg v = false := by
  cases c <;> first | rfl | cases h

theorem call_change (h : s.call msg c = .ok (s', r)) (v : Address) :
    Change s msg c v (s'.vaultData v) := by
  have hown {l : Ledger} {n : Nat} (hidle : msg.sender ≠ v → c.updates s msg v = false)
      (hhandles : msg.sender = v → c.handles msg v = true)
      (hl : Ledger.Operates msg.timestamp s.toLedger msg.sender n l) :
      Change s msg c v (l.vaultData v) := by
    by_cases hv : msg.sender = v
    · exact .restaked (hhandles hv) (hv ▸ hl.restaked)
    · exact .kept (hidle hv) (hl.other (Ne.symm hv))
  cases call_done h with
  | setsUp hc hledger =>
    rw [hledger]
    exact .kept (Call.updates_setsUp hc) rfl
  | registerVault | createMigrationVault => exact .kept rfl rfl
  | stake _ hl => exact hown decide_eq_false decide_eq_true (Ledger.stake_operates hl).1
  | lock _ hl => exact hown decide_eq_false decide_eq_true (Ledger.lock_operates hl).1
  | unstake _ hl => exact hown decide_eq_false decide_eq_true (Ledger.unstake_operates hl)
  | leave hl =>
    have hdata := Ledger.leave_vaultData hl
    by_cases hv : msg.sender = v
    · exact .emptied (decide_eq_true hv) (by simp [hdata, hv])
    · exact .kept rfl (by simp [hdata, Ne.symm hv])
  | updateRewards hl =>
    obtain rfl := Ledger.updateRewardIndex_ok hl
    exact .kept rfl rfl
  | setReward hl =>
    obtain ⟨remaining, -, rfl⟩ := Ledger.setReward_ok hl
    exact .kept rfl rfl
  | @updateAccount account _ hl =>
    obtain ⟨hin, hout⟩ := (Ledger.updateAccount_visits hl).each v
    by_cases hv : v ∈ s.vaults account
    · exact .poked (decide_eq_true hv) (hin hv)
    · exact .kept (decide_eq_false hv) (hout hv)
  | @redeemRewards account _ _ hl =>
    obtain ⟨hin, hout⟩ := (Ledger.redeemRewards_visits hl).each v
    by_cases hv : v ∈ s.vaults account
    · exact .poked (decide_eq_true hv) (hin hv)
    · exact .kept (decide_eq_false hv) (hout hv)
  | @updateVault _ u _ hindex hl =>
    obtain rfl := Ledger.updateRewardIndex_ok hindex
    by_cases hv : u = v
    · subst hv
      have hpoked := Ledger.updateVault_poked hl
      exact .poked (decide_eq_true rfl) hpoked
    · have hother := Ledger.updateVault_other hl (Ne.symm hv)
      exact .kept (decide_eq_false hv) hother
  | @migrateToVault migrateTo _ _ _ hl =>
    by_cases hv : msg.sender = v
    · subst hv
      exact .emptied (decide_eq_true (.inl rfl)) (Ledger.migrateToVault_source hl)
    · by_cases hto : migrateTo = v
      · subst hto
        exact .received rfl hv (Ledger.migrateToVault_target hl (Ne.symm hv))
      · exact .kept (decide_eq_false hv) (Ledger.migrateToVault_other hl (Ne.symm hv) (Ne.symm hto))

variable {d : VaultData}

theorem Change.last_le (h : Change s msg c v d) (ht : t ≤ msg.timestamp)
    (hall : ∀ a, (s.vaultData a).lastMPUpdateTime ≤ t) : d.lastMPUpdateTime ≤ msg.timestamp := by
  have hv := hall v
  cases h with
  | kept _ hd =>
    rw [hd]
    omega
  | poked _ hd => rcases hd.last with hlast | hlast <;> omega
  | restaked _ hd =>
    obtain ⟨force, d₁, hd, hlast, -⟩ := hd
    rcases hd.last with hlast' | hlast' <;> omega
  | emptied _ hd =>
    rw [hd]
    exact Nat.zero_le _
  | received _ _ hd =>
    have := hall msg.sender
    rcases hd.last with hlast | hlast <;> omega

theorem accrued_le (s : StakeManager) (msg : Msg) (c : Call) (v : Address) :
    s.accrued msg c v ≤ (s.vaultData v).rate.gain (s.vaultData v).meter msg.timestamp := by
  unfold accrued
  split
  · cases h : Ledger.vaultPendingMP msg.timestamp (s.vaultData v) with
    | ok mp => exact (Ledger.vaultPendingMP_eq h).le
    | error e => exact Nat.zero_le _
  · exact Nat.zero_le _

/-- The points a call accrues are paid with the time left to count, and no call makes more
of it, unless another vault moves in. -/
theorem Change.spends (h : Change s msg c v d) (hin : c = .migrateToVault v → msg.sender = v) :
    YEAR * s.accrued msg c v + d.stakedBalance * (msg.timestamp - d.lastMPUpdateTime) ≤
      (s.vaultData v).stakedBalance * (msg.timestamp - (s.vaultData v).lastMPUpdateTime) := by
  have hgain : YEAR * s.accrued msg c v ≤ YEAR * _ := Nat.mul_le_mul_left _ (accrued_le s msg c v)
  cases h with
  | kept hidle hd =>
    rw [hd, accrued, hidle]
    simp
  | poked _ hd =>
    have := hd.spends
    omega
  | restaked _ hd =>
    obtain ⟨force, d₁, hd, hlast, hless⟩ := hd
    have hspends := hd.spends
    have hrest : d.stakedBalance * (msg.timestamp - d.lastMPUpdateTime) ≤
        d₁.stakedBalance * (msg.timestamp - d₁.lastMPUpdateTime) := by
      rcases hless with hless | hnow
      · rw [hlast, hd.staked]
        exact Nat.mul_le_mul_right _ hless
      · rw [hnow, Nat.sub_self]
        exact Nat.zero_le _
    omega
  | emptied _ hd =>
    have hle : YEAR * _ ≤ _ := (s.vaultData v).rate.gain_le (s.vaultData v).meter msg.timestamp
    rw [hd]
    simp only [VaultData.empty, Nat.zero_mul, Nat.add_zero]
    exact hgain.trans hle
  | received hc hne _ => exact absurd (hin hc) hne

theorem migrate_spends (h : s.call msg (.migrateToVault v) = .ok (s', r)) (hne : v ≠ msg.sender) :
    YEAR * s.accrued msg (.migrateToVault v) msg.sender +
        (s'.vaultData v).stakedBalance * (msg.timestamp - (s'.vaultData v).lastMPUpdateTime) ≤
      (s.vaultData msg.sender).stakedBalance *
        (msg.timestamp - (s.vaultData msg.sender).lastMPUpdateTime) := by
  have hgain : YEAR * s.accrued msg (.migrateToVault v) msg.sender ≤ YEAR * _ :=
    Nat.mul_le_mul_left _ (accrued_le s msg _ msg.sender)
  cases call_done h with
  | migrateToVault _ _ hl =>
    have hspends := (Ledger.migrateToVault_target hl hne).spends
    exact (Nat.add_le_add_right hgain _).trans hspends
  | setsUp hc => cases hc

-- The history of a stake

/-- What a stake has done since `t₀`, when it was that of the vault `v₀`: the vault it is that
of, the points accrued to it and the integral of its balance over the time. -/
inductive History (s₀ : StakeManager) (t₀ : Nat) (v₀ : Address) :
    StakeManager → Nat → Address → (points area : Nat) → Prop
  | start : History s₀ t₀ v₀ s₀ t₀ v₀ 0 0
  /-- No other stake is moved to the vault. -/
  | stay {s s' : StakeManager} : History s₀ t₀ v₀ s t v points area → t ≤ msg.timestamp →
    s.call msg c = .ok (s', r) → (c = .migrateToVault v → msg.sender = v) →
    History s₀ t₀ v₀ s' msg.timestamp v (points + s.accrued msg c v)
      (area + (s.vaultData v).stakedBalance * (msg.timestamp - t))
  | migrate {s s' : StakeManager} : History s₀ t₀ v₀ s t v points area → t ≤ msg.timestamp →
    msg.sender = v → s.call msg (.migrateToVault v') = .ok (s', r) → v' ≠ v →
    History s₀ t₀ v₀ s' msg.timestamp v' (points + s.accrued msg (.migrateToVault v') v)
      (area + (s.vaultData v).stakedBalance * (msg.timestamp - t))

/-- What the time left to count is worth, in points times `YEAR`. -/
def uncounted (s : StakeManager) (now : Nat) (v : Address) : Nat :=
  (s.vaultData v).stakedBalance * (now - (s.vaultData v).lastMPUpdateTime)

theorem uncounted_later (s : StakeManager) (t now : Nat) (v : Address) :
    s.uncounted now v ≤ s.uncounted t v + (s.vaultData v).stakedBalance * (now - t) := by
  rw [uncounted, uncounted, ← Nat.mul_add]
  exact Nat.mul_le_mul_left _ (by omega)

theorem History.bounded (h : History s₀ t₀ v₀ s t v points area) :
    YEAR * points + s.uncounted t v ≤ s₀.uncounted t₀ v₀ + area := by
  induction h with
  | start => simp
  | @stay t v points area msg c r s s' _ ht hcall hin ih =>
    have hspends := (call_change hcall v).spends hin
    have hlater := s.uncounted_later t msg.timestamp v
    simp only [uncounted] at hspends hlater ih ⊢
    rw [Nat.mul_add]
    omega
  | @migrate t v points area msg v' r s s' _ ht hv hcall hne ih =>
    subst hv
    have hspends := migrate_spends hcall hne
    have hlater := s.uncounted_later t msg.timestamp msg.sender
    simp only [uncounted] at hspends hlater ih ⊢
    rw [Nat.mul_add]
    omega

-- A stake that is left alone

/-- Calls that do not handle the vault `v`, of which `n` have updated it, the last one at `u`. -/
inductive Undisturbed (s₀ : StakeManager) (t₀ : Nat) (v : Address) :
    StakeManager → Nat → (n u : Nat) → Prop
  | start : Undisturbed s₀ t₀ v s₀ t₀ 0 (s₀.vaultData v).lastMPUpdateTime
  | step {s s' : StakeManager} : Undisturbed s₀ t₀ v s t n u → t ≤ msg.timestamp →
    s.call msg c = .ok (s', r) → c.handles msg v = false →
    Undisturbed s₀ t₀ v s' msg.timestamp (if c.updates s msg v then n + 1 else n)
      (if c.updates s msg v then msg.timestamp else u)

theorem Undisturbed.follows (h : Undisturbed s₀ t₀ v s t n u)
    (hlast : (s₀.vaultData v).lastMPUpdateTime ≤ t₀)
    (hcap : (s₀.vaultData v).mpAccrued ≤ (s₀.vaultData v).maxMP) :
    u ≤ t ∧ (s.vaultData v).rate = (s₀.vaultData v).rate ∧
      (s₀.vaultData v).rate.Follows (s₀.vaultData v).meter n u (s.vaultData v).meter := by
  induction h with
  | start => exact ⟨hlast, rfl, .start hcap⟩
  | @step t n u msg c r s s' _ ht hcall hhandles ih =>
    obtain ⟨hu, hrate, hfollows⟩ := ih
    cases call_change hcall v with
    | kept hidle hd =>
      rw [hd, hidle]
      exact ⟨hu.trans ht, hrate, hfollows⟩
    | poked hupdates hd =>
      rw [hupdates]
      refine ⟨le_rfl, hd.rate_eq.trans hrate, ?_⟩
      rw [hd.meter, hrate]
      exact hfollows.poke (hu.trans ht)
    | restaked hh _ | emptied hh _ => simp [hhandles] at hh
    | received hc _ _ => simp [hc, Call.handles] at hhandles

theorem Reachable.last_le (h : Reachable s now) (v : Address) :
    (s.vaultData v).lastMPUpdateTime ≤ now := by
  refine Runs.Reachable.invariant
    (I := fun s t => ∀ v, (s.vaultData v).lastMPUpdateTime ≤ t) ?_ ?_ h v
  · rintro _ t ⟨owner, maxVaults, rfl⟩ v
    exact Nat.zero_le t
  · intro s t tx s' hall ht hs v
    obtain ⟨⟨s₁, r⟩, hcall, rfl⟩ := map_eq_ok.mp hs
    exact (call_change hcall v).last_le ht hall

def oneStaked : List (Msg × Call) :=
  [(⟨1, 0, 10⟩, .setVaultFactory 2), (⟨1, 0, 10⟩, .setTrustedCodehash 3 true),
    (⟨2, 0, 11⟩, .registerVault 5 4 3), (⟨5, 3, 12⟩, .stake 1 0 0)]

end StakeManager

end StatusNetwork.Staking
