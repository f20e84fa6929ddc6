import StatusNetwork.Staking.Locks
import StatusNetwork.Staking.Registry

/-!
# Registered vaults

Over the runs of the vaults, their factory and the manager: the two maps of the registry agree,
funds are recorded for registered vaults only, and an owner never has more vaults than allowed. The
vault that `replaceVault` adds is not checked against the limit, but takes the place of another.
-/

namespace StatusNetwork.Staking

open Function (update_of_ne update_self)
open StakeManager (Call)

-- The lists of the owners

namespace Registry

variable {r : Registry}

/-- Every vault with an owner is in the list of that owner. -/
def Complete (r : Registry) : Prop := ∀ v, r.vaultOwners v ≠ 0 → v ∈ r.vaults (r.vaultOwners v)

theorem Complete.empty : Registry.empty.Complete := fun _ h => absurd rfl h

theorem Complete.register (h : r.Complete) (v owner : Address) : (r.register v owner).Complete := by
  intro u hu
  by_cases huv : u = v
  · subst huv
    simp [Registry.register]
  · simp only [Registry.register, update_of_ne huv] at hu ⊢
    have hold := h u hu
    by_cases ho : r.vaultOwners u = owner
    · rw [ho, update_self]
      exact List.mem_append_left _ (ho ▸ hold)
    · rwa [update_of_ne ho]

theorem Complete.deregister (h : r.Complete) (v : Address) : (r.deregister v).Complete := by
  intro u hu
  have huv : u ≠ v := by
    rintro rfl
    simp [Registry.deregister] at hu
  simp only [Registry.deregister, update_of_ne huv] at hu ⊢
  have hold := h u hu
  by_cases ho : r.vaultOwners u = r.vaultOwners v
  · rw [ho, update_self, (swapRemove_perm v _).mem_iff, List.mem_erase_of_ne huv]
    exact ho ▸ hold
  · rwa [update_of_ne ho]

theorem length_register (r : Registry) (v owner o : Address) :
    ((r.register v owner).vaults o).length = (r.vaults o).length + if o = owner then 1 else 0 := by
  by_cases ho : o = owner
  all_goals
    simp [Registry.register, ho]

theorem length_deregister_le (r : Registry) (v o : Address) :
    ((r.deregister v).vaults o).length ≤ (r.vaults o).length := by
  by_cases ho : o = r.vaultOwners v
  · subst ho
    simp only [Registry.deregister, update_self, (swapRemove_perm v _).length_eq]
    exact (List.erase_sublist ..).length_le
  · simp [Registry.deregister, ho]

theorem length_deregister (h : r.Complete) (hv : r.vaultOwners v ≠ 0) :
    ((r.deregister v).vaults (r.vaultOwners v)).length + 1 =
      (r.vaults (r.vaultOwners v)).length := by
  have hmem := h v hv
  simp only [Registry.deregister, update_self, (swapRemove_perm v _).length_eq,
    List.length_erase_of_mem hmem]
  exact Nat.sub_add_cancel (List.length_pos_of_mem hmem)

theorem length_replace (h : r.Complete) (hv : r.vaultOwners v ≠ 0) (hne : v ≠ v') (o : Address) :
    (((r.register v' (r.vaultOwners v)).deregister v).vaults o).length ≤ (r.vaults o).length := by
  have howner : (r.register v' (r.vaultOwners v)).vaultOwners v = r.vaultOwners v :=
    update_of_ne hne _ _
  have hregister := length_register r v' (r.vaultOwners v) o
  by_cases ho : o = r.vaultOwners v
  · subst ho
    have hless := length_deregister (h.register v' (r.vaultOwners v)) (howner.symm ▸ hv)
    rw [howner] at hless
    rw [if_pos rfl] at hregister
    omega
  · rw [if_neg ho] at hregister
    exact (length_deregister_le ..).trans hregister.le

end Registry

-- Vaults without funds

namespace Ledger

variable {l l' : Ledger}

/-- The manager records neither a stake nor rewards for the vault. -/
def Unfunded (l : Ledger) (v : Address) : Prop :=
  (l.vaultData v).stakedBalance = 0 ∧ (l.vaultData v).rewardsAccrued = 0

theorem Unfunded.of_eq (h : l.Unfunded a) (he : l'.vaultData a = l.vaultData a) :
    l'.Unfunded a := by
  rwa [Unfunded, he]

theorem Unfunded.advance (h : l.Unfunded a) (now : Nat) : (l.advance now).Unfunded a := h

theorem updateVault_other (h : l.updateVault now v force = .ok l') (ha : a ≠ v) :
    l'.vaultData a = l.vaultData a := by
  obtain ⟨mp, time, -, -, rfl⟩ := updateVault_ok h
  simp [setVault, ha]

theorem Unfunded.updateVault (hu : l.Unfunded a) (hb : l.Balanced)
    (h : l.updateVault now v force = .ok l') : l'.Unfunded a := by
  by_cases ha : a = v
  · subst ha
    obtain ⟨hstaked, hrewards⟩ := hu
    have := (hb.vault a).accrued_le
    have := (hb.vault a).max_le
    have hpoints : (l.vaultData a).mpAccrued = 0 := by omega
    obtain ⟨mp, time, -, -, rfl⟩ := updateVault_ok h
    simp [Unfunded, setVault, updated, hstaked, hrewards, hpoints]
  · exact hu.of_eq (updateVault_other h ha)

theorem Unfunded.visits (hu : l.Unfunded a) (hb : l.Balanced) (h : Visits now l vs paid l') :
    l'.Unfunded a := by
  induction h with
  | nil => exact hu
  | @cons _ _ _ _ _ v _ hvault _ _ _ ih =>
    have h₁ := hu.updateVault hb hvault
    refine ih ?_ ((hb.updateVault hvault).payOut _ _)
    by_cases ha : a = v
    · subst ha
      simp [Unfunded, payOut, setVault, h₁.1, h₁.2]
    · exact h₁.of_eq (by simp [payOut, setVault, ha])

theorem Operates.other (h : Operates now l v n l') (ha : a ≠ v) :
    l'.vaultData a = l.vaultData a := by
  cases h with
  | restake hvault => simpa [Ledger.restake, setVault, ha] using updateVault_other hvault ha
  | reduce hvault hr =>
    obtain ⟨mp, maxMP, -, -, -, -, -, -, rfl⟩ := reduceStake_ok hr
    simpa [setVault, ha] using updateVault_other hvault ha

theorem migrateToVault_other (h : l.migrateToVault now v migrateTo = .ok l') (ha : a ≠ v)
    (hto : a ≠ migrateTo) : l'.vaultData a = l.vaultData a := by
  obtain ⟨l₁, hvault, -, rfl⟩ := migrateToVault_ok h
  simpa [move, setVault, ha, hto] using updateVault_other hvault ha

theorem migrateToVault_source (h : l.migrateToVault now v migrateTo = .ok l') :
    l'.vaultData v = .empty := by
  obtain ⟨l₁, -, -, rfl⟩ := migrateToVault_ok h
  simp [move, setVault]

end Ledger

namespace StakeManager

variable {s : StakeManager}

/-- Only registered vaults have funds on record. -/
def OnlyRegisteredFunded (s : StakeManager) : Prop := ∀ v, s.vaultOwners v = 0 → s.Unfunded v

theorem OnlyRegisteredFunded.call (hf : s.OnlyRegisteredFunded) (hb : s.Balanced)
    (h : s.call msg c = .ok (s', r)) : s'.OnlyRegisteredFunded := by
  intro a ha
  have hother {l : Ledger} (hactive : s.vaultOwners msg.sender ≠ 0) (ha : s.vaultOwners a = 0)
      (hl : a ≠ msg.sender → l.vaultData a = s.vaultData a) : l.Unfunded a := by
    refine (hf a ha).of_eq (hl ?_)
    rintro rfl
    exact hactive ha
  cases call_done h with
  | @registerVault v _ _ hnew _ =>
    by_cases hav : a = v
    · exact hf a (hav ▸ hnew)
    · exact hf a ((update_of_ne hav _ _).symm.trans ha)
  | @createMigrationVault v howner =>
    by_cases hav : a = v
    · subst hav
      exact absurd ((update_self a _ s.vaultOwners).symm.trans ha) howner
    · exact hf a ((update_of_ne hav _ _).symm.trans ha)
  | leave hl =>
    have hdata := Ledger.leave_vaultData hl
    by_cases hav : a = msg.sender
    · simp [Ledger.Unfunded, hdata, hav, VaultData.empty]
    · have howner : s.vaultOwners a = 0 := (update_of_ne hav _ _).symm.trans ha
      exact (hf a howner).of_eq (by simp [hdata, hav])
  | migrateToVault _ htarget hl =>
    by_cases hav : a = msg.sender
    · simp [Ledger.Unfunded, hav, Ledger.migrateToVault_source hl, VaultData.empty]
    · have howner : s.vaultOwners a = 0 := (update_of_ne hav _ _).symm.trans ha
      refine (hf a howner).of_eq (Ledger.migrateToVault_other hl hav ?_)
      rintro rfl
      exact htarget howner
  | stake hactive hl => exact hother hactive ha (Ledger.stake_operates hl).1.other
  | lock hactive hl => exact hother hactive ha (Ledger.lock_operates hl).1.other
  | unstake hactive hl => exact hother hactive ha (Ledger.unstake_operates hl).other
  | updateAccount hl =>
    exact ((hf a ha).advance _).visits hb.advance (Ledger.updateAccount_visits hl)
  | redeemRewards hl =>
    exact ((hf a ha).advance _).visits hb.advance (Ledger.redeemRewards_visits hl)
  | updateVault hindex hl =>
    obtain rfl := Ledger.updateRewardIndex_ok hindex
    exact ((hf a ha).advance _).updateVault hb.advance hl
  | updateRewards hl =>
    obtain rfl := Ledger.updateRewardIndex_ok hl
    exact hf a ha
  | setReward hl =>
    obtain ⟨remaining, -, rfl⟩ := Ledger.setReward_ok hl
    exact hf a ha
  | setsUp _ hledger hregistry =>
    rw [hledger]
    exact hf a (hregistry ▸ ha)

-- The manager

/-- What one call of the manager keeps. -/
structure Tidy (s : StakeManager) : Prop where
  wellFormed : s.toRegistry.WellFormed
  complete : s.toRegistry.Complete
  balanced : s.Balanced
  funded : s.OnlyRegisteredFunded

theorem Tidy.initialized : (StakeManager.initialized owner n).Tidy :=
  ⟨.empty, .empty, .empty, fun _ _ => ⟨rfl, rfl⟩⟩

theorem Tidy.call (h : s.Tidy) (hs : s.call msg c = .ok (s', r)) (hfresh : c.Fresh s) :
    s'.Tidy := by
  refine ⟨call_wellFormed hs h.wellFormed hfresh, ?_, h.balanced.step (call_step hs),
    h.funded.call h.balanced hs⟩
  rcases call_registry hs with ⟨v, owner, codehash, -, -, -, hs⟩ | ⟨v, -, -, hs⟩ | ⟨-, hs⟩ | hs
  · exact hs ▸ h.complete.register v owner
  · exact hs ▸ h.complete.register v _
  · exact hs ▸ h.complete.deregister _
  · exact hs ▸ h.complete

def Call.AddsNone (c : Call) : Prop :=
  (∀ v owner codehash, c ≠ .registerVault v owner codehash) ∧ ∀ v, c ≠ .createMigrationVault v

section
variable (h : s.call msg c = .ok (s', r)) (hc : c.AddsNone)
include h hc

theorem call_addsNone : s'.toRegistry = s.deregister msg.sender ∨ s'.toRegistry = s.toRegistry := by
  rcases call_registry h with ⟨v, owner, codehash, rfl, -⟩ | ⟨v, rfl, -⟩ | ⟨-, hs⟩ | hs
  · exact absurd rfl (hc.1 v owner codehash)
  · exact absurd rfl (hc.2 v)
  · exact .inl hs
  · exact .inr hs

theorem call_length_le (o : Address) : (s'.vaults o).length ≤ (s.vaults o).length := by
  rcases call_addsNone h hc with hs | hs
  · rw [hs]
    exact Registry.length_deregister_le ..
  · rw [hs]

theorem call_vaultOwners (hv : s'.vaultOwners v ≠ 0) : s.vaultOwners v ≠ 0 := by
  rcases call_addsNone h hc with hs | hs
  · rw [hs] at hv
    by_cases hvs : v = msg.sender
    · simp [Registry.deregister, hvs] at hv
    · simpa [Registry.deregister, hvs] using hv
  · rwa [hs] at hv

end

/-- A registered vault is listed exactly once, for its owner, and no other vault has funds. -/
structure Consistent (s : StakeManager) : Prop where
  listed : ∀ v o, o ≠ 0 → (v ∈ s.vaults o ↔ s.vaultOwners v = o)
  once : ∀ v o, v ∈ s.vaults o →
    o ≠ 0 ∧ (s.vaults o).count v = 1 ∧ ∀ o', v ∈ s.vaults o' → o' = o
  funded : ∀ v, (s.vaultData v).stakedBalance ≠ 0 ∨ (s.vaultData v).rewardsAccrued ≠ 0 →
    s.vaultOwners v ≠ 0

theorem Tidy.consistent (h : s.Tidy) : s.Consistent := by
  refine ⟨fun v o ho => ⟨fun hv => (h.wellFormed.owned o v hv).1, ?_⟩, fun v o hv => ?_,
    fun v hv h0 => ?_⟩
  · rintro rfl
    exact h.complete v ho
  · obtain ⟨howner, ho⟩ := h.wellFormed.owned o v hv
    refine ⟨ho, List.count_eq_one_of_mem (h.wellFormed.nodup o) hv, fun o' hv' => ?_⟩
    exact (h.wellFormed.owned o' v hv').1.symm.trans howner
  · obtain ⟨hstaked, hrewards⟩ := h.funded v h0
    rcases hv with hv | hv
    · exact hv hstaked
    · exact hv hrewards

end StakeManager

-- The vaults and the manager

namespace Vaults

variable {w w' : Vaults}

/-- What the chain guarantees of a transaction: nobody acts as the zero address, vaults act only by
their own code, a new vault gets an address of its own, and only the factory registers vaults. -/
def Genuine (w : Vaults) (tx : Tx) : Prop :=
  tx.sender ≠ 0 ∧ w.vault tx.sender = none ∧
    match tx.action with
    | .createVault _ v _ => w.vault v = none
    | .replaceVault _ migrateTo _ => w.vault migrateTo = none
    | .manager _ (.registerVault ..) => False
    | _ => True

instance (w : Vaults) (tx : Tx) : Decidable (w.Genuine tx) := by
  unfold Genuine
  split <;> infer_instance

/-- The runs of the vaults, with the limits before and after every transaction. -/
def Run : Vaults → (now : Nat) → List (Nat × Nat) → Prop :=
  Runs.Logged Tx.now Initial (fun w tx w' => w.Genuine tx ∧ w.apply tx = .ok w')
    fun w _ w' => [(w.manager.maxVaultsPerUser, w'.manager.maxVaultsPerUser)]

/-- The calls of the manager a transaction makes. -/
inductive ManagerStep (w : Vaults) (tx : Tx) (w' : Vaults) : Prop
  | idle : w'.manager = w.manager → ManagerStep w tx w'
  | create : tx.action = .createVault factory v codehash → w'.vault v ≠ none →
      w.manager.registerVault msg v tx.sender codehash = .ok w'.manager → ManagerStep w tx w'
  | vault : c.AddsNone → w.manager.call msg c = .ok (w'.manager, r) → ManagerStep w tx w'
  | replace : tx.action = .replaceVault v migrateTo codehash → w.vault v ≠ none →
      w'.vault migrateTo ≠ none → msg.sender = v →
      w.manager.createMigrationVault msg migrateTo = .ok s →
      s.migrateToVault msg migrateTo = .ok w'.manager → ManagerStep w tx w'
  | direct : tx.action = .manager codehash c →
      w.manager.call ⟨tx.sender, codehash, tx.now⟩ c = .ok (w'.manager, r) → ManagerStep w tx w'

theorem setVault_ne_none (w : Vaults) (v : Address) (vault : StakeVault) (hu : w.vault u ≠ none) :
    (w.setVault v vault).vault u ≠ none := by
  by_cases huv : u = v
  · simp [setVault, huv]
  · simpa [setVault, huv] using hu

theorem handOver_manager {vault : StakeVault} (h : w.handOver now v vault migrateTo = .ok w') :
    (∀ u, w.vault u ≠ none → w'.vault u ≠ none) ∧
      w.manager.migrateToVault ⟨v, vault.codehash, now⟩ migrateTo = .ok w'.manager := by
  simp only [handOver, bind_eq_ok] at h
  obtain ⟨manager, hmigrate, target, -, token, -, ⟨⟩⟩ := h
  exact ⟨fun u hu => setVault_ne_none _ _ _ (setVault_ne_none _ _ _ hu), hmigrate⟩

/-- No transaction removes a vault. -/
theorem apply_manager (h : w.apply tx = .ok w') :
    (∀ u, w.vault u ≠ none → w'.vault u ≠ none) ∧ ManagerStep w tx w' := by
  obtain ⟨sender, now, action⟩ := tx
  have hsame (v vault) (u) (hu : w.vault u ≠ none) := setVault_ne_none w v vault hu
  cases action with
  | createVault factory v codehash =>
    simp only [apply, createVault, bind_eq_ok] at h
    obtain ⟨manager, hregister, ⟨⟩⟩ := h
    exact ⟨hsame v _, .create rfl (by simp [setVault]) hregister⟩
  | stake v amount lockSeconds source =>
    simp only [apply, stake, bind_eq_ok] at h
    obtain ⟨vault, -, _, -, _, -, ⟨manager, u⟩, hstake, _, -, token, -, ⟨⟩⟩ := h
    exact ⟨hsame v _, .vault (c := .stake amount lockSeconds vault.lockUntil) (by simp
      [Call.AddsNone]) hstake⟩
  | lock v lockSeconds =>
    simp only [apply, lock, bind_eq_ok] at h
    obtain ⟨vault, -, _, -, ⟨manager, u⟩, hlock, _, -, ⟨⟩⟩ := h
    exact ⟨hsame v _, .vault (c := .lock lockSeconds vault.lockUntil) (by simp
      [Call.AddsNone]) hlock⟩
  | unstake v amount destination =>
    simp only [apply, unstake, bind_eq_ok] at h
    obtain ⟨vault, -, _, -, _, -, _, -, _, -, manager, hunstake, token, -, ⟨⟩⟩ := h
    exact ⟨hsame v _, .vault (c := .unstake amount) (by simp [Call.AddsNone])
      (map_eq_ok.mpr ⟨manager, hunstake, rfl⟩)⟩
  | leave v destination reverts =>
    simp only [apply, leave, bind_eq_ok] at h
    obtain ⟨vault, -, _, -, h⟩ := h
    -- the inner call may fail
    have hleft (w' : Vaults) (hw : w'.manager = w.managerLeft ⟨v, vault.codehash, now⟩ reverts) :
        ManagerStep w ⟨sender, now, .leave v destination reverts⟩ w' := by
      rw [managerLeft] at hw
      split at hw
      · exact .idle hw
      · split at hw
        · rename_i manager hleave
          exact .vault (c := .leave) (by simp [Call.AddsNone])
            (map_eq_ok.mpr ⟨manager, hleave, by rw [hw]⟩)
        · exact .idle hw
    split at h
    · obtain ⟨token, -, h⟩ := bind_eq_ok.mp h
      obtain rfl := Except.ok.inj h
      exact ⟨hsame v _, hleft _ rfl⟩
    · obtain rfl := Except.ok.inj h
      exact ⟨hsame v _, hleft _ rfl⟩
  | migrateToVault v migrateTo =>
    simp only [apply, migrateToVault, bind_eq_ok] at h
    obtain ⟨vault, -, _, -, _, -, target, -, _, -, _, -, h⟩ := h
    obtain ⟨hvaults, hmigrate⟩ := handOver_manager h
    exact ⟨hvaults, .vault (c := .migrateToVault migrateTo) (by simp
      [Call.AddsNone]) (map_eq_ok.mpr ⟨_, hmigrate, rfl⟩)⟩
  | replaceVault v migrateTo codehash =>
    simp only [apply, replaceVault, bind_eq_ok] at h
    obtain ⟨vault, hown, _, -, manager, hcreate, h⟩ := h
    simp only [ownedBy, vaultAt, bind_eq_ok] at hown
    obtain ⟨_, hvault, -⟩ := hown
    obtain ⟨hvaults, hmigrate⟩ := handOver_manager h
    have hv : w.vault v ≠ none := by
      intro hnone
      simp [hnone] at hvault
    have hto : w'.vault migrateTo ≠ none := hvaults migrateTo (by simp [setVault])
    exact ⟨fun u hu => hvaults u (hsame migrateTo _ u hu), .replace rfl hv hto rfl hcreate hmigrate⟩
  | withdraw v amount destination =>
    simp only [apply, withdraw, bind_eq_ok] at h
    obtain ⟨vault, -, _, -, _, -, _, -, _, -, _, -, token, -, ⟨⟩⟩ := h
    exact ⟨hsame v _, .idle rfl⟩
  | emergencyExit v destination =>
    simp only [apply, emergencyExit, bind_eq_ok] at h
    obtain ⟨vault, -, _, -, _, -, token, -, ⟨⟩⟩ := h
    exact ⟨hsame v _, .idle rfl⟩
  | transfer dst amount | transferFrom src dst amount =>
    obtain ⟨token, -, rfl⟩ := map_eq_ok.mp h
    exact ⟨fun _ hu => hu, .idle rfl⟩
  | approve spender amount =>
    cases h
    exact ⟨fun _ hu => hu, .idle rfl⟩
  | manager codehash call =>
    obtain ⟨⟨manager, r⟩, hcall, rfl⟩ := map_eq_ok.mp h
    exact ⟨fun _ hu => hu, .direct rfl hcall⟩

structure Kept (w : Vaults) : Prop where
  tidy : w.manager.Tidy
  created : ∀ v, w.manager.vaultOwners v ≠ 0 → w.vault v ≠ none

theorem Initial.kept (h : Initial w) : w.Kept := by
  obtain ⟨⟨owner, n, hm⟩, -⟩ := h
  refine ⟨hm ▸ .initialized, fun v hv => ?_⟩
  rw [hm] at hv
  exact absurd rfl hv

theorem Kept.unregistered (h : w.Kept) (hv : w.vault v = none) : w.manager.vaultOwners v = 0 := by
  by_contra hreg
  exact h.created v hreg hv

theorem Kept.call (h : w.Kept) (hvaults : ∀ u, w.vault u ≠ none → w'.vault u ≠ none)
    (hc : Call.AddsNone c) (hs : w.manager.call msg c = .ok (w'.manager, r)) :
    w'.Kept ∧ ∀ o, (w'.manager.vaults o).length ≤ (w.manager.vaults o).length := by
  have hfresh : c.Fresh w.manager := by
    cases c with
    | registerVault v owner codehash => exact absurd rfl (hc.1 v owner codehash)
    | createMigrationVault v => exact absurd rfl (hc.2 v)
    | _ => trivial
  refine ⟨⟨h.tidy.call hs hfresh, fun v hv => ?_⟩, StakeManager.call_length_le hs hc⟩
  exact hvaults v (h.created v (StakeManager.call_vaultOwners hs hc hv))

theorem register_created (h : ∀ u, w.manager.vaultOwners u ≠ 0 → w'.vault u ≠ none)
    (hv : w'.vault v ≠ none) (hu : (w.manager.register v owner).vaultOwners u ≠ 0) :
    w'.vault u ≠ none := by
  by_cases huv : u = v
  · exact huv ▸ hv
  · exact h u (by simpa [Registry.register, huv] using hu)

theorem Kept.apply (h : w.Kept) (hg : w.Genuine tx) (ha : w.apply tx = .ok w') :
    w'.Kept ∧ ∀ o, (w'.manager.vaults o).length ≤
      max (w.manager.vaults o).length w.manager.maxVaultsPerUser := by
  obtain ⟨hvaults, hstep⟩ := apply_manager ha
  obtain ⟨hsender, hnone, haction⟩ := hg
  have hold (u) (hu : w.manager.vaultOwners u ≠ 0) := hvaults u (h.created u hu)
  cases hstep with
  | idle hm =>
    rw [hm]
    exact ⟨⟨hm ▸ h.tidy, fun v hv => hold v (hm ▸ hv)⟩, fun o => le_max_left ..⟩
  | @create factory v codehash msg htx hv hregister =>
    have hcall : w.manager.call msg (.registerVault v tx.sender codehash) = .ok (w'.manager, 0) :=
      map_eq_ok.mpr ⟨_, hregister, rfl⟩
    rcases StakeManager.call_registry hcall with ⟨_, _, _, hc, -, hroom, hs⟩ | ⟨_, hc, -⟩ |
      ⟨hc | ⟨_, hc⟩, -⟩ | hs
    · cases hc
      refine ⟨⟨h.tidy.call hcall hsender, fun u hu => register_created hold hv (hs ▸ hu)⟩, ?_⟩
      intro o
      rw [hs, Registry.length_register]
      split
      · rename_i ho
        rw [ho]
        omega
      · omega
    · cases hc
    · cases hc
    · cases hc
    · refine ⟨⟨h.tidy.call hcall hsender, fun u hu => hold u (hs ▸ hu)⟩, fun o => ?_⟩
      rw [hs]
      exact le_max_left ..
  | vault hc hcall =>
    obtain ⟨hkept, hle⟩ := h.call hvaults hc hcall
    exact ⟨hkept, fun o => (hle o).trans (le_max_left ..)⟩
  | @replace v migrateTo codehash msg s htx hv hto hmsg hcreate hmigrate =>
    rw [htx] at haction
    subst hmsg
    have hne : msg.sender ≠ migrateTo := by
      rintro rfl
      exact hv haction
    have hcall : w.manager.call msg (.createMigrationVault migrateTo) = .ok (s, 0) :=
      map_eq_ok.mpr ⟨_, hcreate, rfl⟩
    have hcall' : s.call msg (.migrateToVault migrateTo) = .ok (w'.manager, 0) :=
      map_eq_ok.mpr ⟨_, hmigrate, rfl⟩
    obtain ⟨howner, rfl⟩ := StakeManager.createMigrationVault_ok hcreate
    obtain ⟨-, -, -, l, hs, -⟩ := StakeManager.migrateToVault_ok hmigrate
    have hregistry : w'.manager.toRegistry = (w.manager.register migrateTo
        (w.manager.vaultOwners msg.sender)).deregister msg.sender := by
      rw [hs]
    refine ⟨⟨(h.tidy.call hcall (h.unregistered haction)).call hcall' trivial, fun u hu => ?_⟩,
      fun o => ?_⟩
    · have hu' : (w.manager.register migrateTo
          (w.manager.vaultOwners msg.sender)).vaultOwners u ≠ 0 :=
        StakeManager.call_vaultOwners hcall' (by simp [Call.AddsNone]) hu
      exact register_created hold hto hu'
    · rw [hregistry]
      exact (Registry.length_replace h.tidy.complete howner hne o).trans (le_max_left ..)
  | @direct codehash c r htx hcall =>
    rw [htx] at haction
    have hc : c.AddsNone := by
      constructor
      · rintro v owner k rfl
        exact haction
      · rintro v rfl
        obtain ⟨_, hcreate, -⟩ := map_eq_ok.mp hcall
        exact (StakeManager.createMigrationVault_ok hcreate).1 (h.unregistered hnone)
    obtain ⟨hkept, hle⟩ := h.call hvaults hc hcall
    exact ⟨hkept, fun o => (hle o).trans (le_max_left ..)⟩

/-- In every run the registry is consistent, and if the limit is never lowered no owner has more
vaults than it allows. -/
theorem registry_consistent (h : Run w now limits) :
    w.manager.Consistent ∧ ((∀ p ∈ limits, p.1 ≤ p.2) →
      ∀ o, (w.manager.vaults o).length ≤ w.manager.maxVaultsPerUser) := by
  have hinv : w.Kept ∧ ((∀ p ∈ limits, p.1 ≤ p.2) →
      ∀ o, (w.manager.vaults o).length ≤ w.manager.maxVaultsPerUser) := by
    refine h.invariant (I := fun w _ limits => w.Kept ∧ ((∀ p ∈ limits, p.1 ≤ p.2) →
      ∀ o, (w.manager.vaults o).length ≤ w.manager.maxVaultsPerUser)) ?_ ?_
    · intro w _ hinit
      refine ⟨hinit.kept, fun _ o => ?_⟩
      obtain ⟨⟨owner, n, hm⟩, -⟩ := hinit
      rw [hm]
      exact Nat.zero_le _
    · rintro w t limits tx w' ⟨hkept, hlimit⟩ - ⟨hg, ha⟩
      obtain ⟨hkept', hle⟩ := hkept.apply hg ha
      refine ⟨hkept', fun hlimits o => ?_⟩
      rw [List.forall_mem_append, List.forall_mem_singleton] at hlimits
      have hbefore := hlimit hlimits.1 o
      exact ((hle o).trans (max_le hbefore le_rfl)).trans hlimits.2
  exact ⟨hinv.1.tidy.consistent, hinv.2⟩

def replaceAtLimit : List Tx :=
  [⟨1, 10, .manager 0 (.setVaultFactory 2)⟩, ⟨1, 10, .manager 0 (.setTrustedCodehash 3 true)⟩,
    ⟨4, 11, .createVault 2 5 3⟩, ⟨4, 12, .stake 5 1000 0 4⟩, ⟨4, 13, .replaceVault 5 6 3⟩]

theorem registry_consistent_replaced :
    ∃ w limits, Run w 13 limits ∧ (w.manager.vaultData 6).stakedBalance = 1000 ∧
      w.manager.vaultOwners 6 ≠ 0 ∧ (w.manager.vaults 4).length ≤ w.manager.maxVaultsPerUser ∧
      w.manager.maxVaultsPerUser = 1 := by
  have hinit : Initial ⟨.initialized 1 1, tokens, fun _ => none⟩ := ⟨⟨1, 1, rfl⟩, fun _ => rfl⟩
  obtain ⟨w, limits, hrun, hw⟩ : ∃ w limits, Run w 13 limits ∧
      ((w.manager.vaultData 6).stakedBalance, w.manager.maxVaultsPerUser,
        decide (∀ p ∈ limits, p.1 ≤ p.2)) = (1000, 1, true) :=
    Runs.exists_logged (fun w tx => do
        failIf (¬ w.Genuine tx) .noContract
        w.apply tx) (fun w tx w' h => by
          simp only [bind_eq_ok, failIf_eq_ok, not_not] at h
          exact ⟨h.choose_spec.1, h.choose_spec.2⟩) 0 hinit replaceAtLimit _ (by decide +kernel)
  simp only [Prod.mk.injEq, decide_eq_true_eq] at hw
  obtain ⟨hstaked, hmax, hlimits⟩ := hw
  obtain ⟨hconsistent, hlimit⟩ := registry_consistent hrun
  exact ⟨w, limits, hrun, hstaked, hconsistent.funded 6 (.inl (by rw [hstaked]; decide)),
    hlimit hlimits 4, hmax⟩

end Vaults

end StatusNetwork.Staking
