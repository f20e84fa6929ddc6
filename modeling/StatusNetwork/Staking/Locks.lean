import StatusNetwork.Staking.VaultLaws

/-!
# Locks

The tokens of a vault cover its deposit, the deposit is what the manager has on record
as staked until the vault leaves, and while the lock runs the deposit stays where it is
or moves as a whole to another vault of the owner.
-/

namespace StatusNetwork.Staking.Vaults

open Function (update update_of_ne update_self)

variable {w w' : Vaults} {vault vault' : StakeVault}

-- The invariant

structure SoundAt (w : Vaults) (v : Address) : Prop where
  covered : ∀ vault, w.vault v = some vault → vault.depositedBalance ≤ w.token.balanceOf v
  agrees : ∀ vault, w.vault v = some vault → w.manager.vaultOwners v ≠ 0 →
    vault.hasLeft = false → vault.depositedBalance = w.manager.staked v
  registered : w.manager.vaultOwners v ≠ 0 →
    ∃ vault, w.vault v = some vault ∧ vault.owner = w.manager.vaultOwners v
  unregistered : w.manager.vaultOwners v = 0 → w.manager.staked v = 0
  closed : ∀ vault, w.vault v = some vault → ∀ spender, w.token.allowance v spender = 0

structure Sound (w : Vaults) : Prop where
  each : ∀ v, w.SoundAt v
  calm : w.manager.emergencyModeEnabled = false

theorem Initial.sound (h : Initial w) : w.Sound := by
  obtain ⟨⟨owner, maxVaults, hm⟩, hnone⟩ := h
  refine ⟨fun v => ⟨?_, ?_, ?_, ?_, ?_⟩, ?_⟩
  · simp [hnone v]
  · simp [hnone v]
  · simp [hm, StakeManager.initialized, Registry.empty]
  · intro _
    rw [hm]
    rfl
  · simp [hnone v]
  · rw [hm]
    rfl

theorem SoundAt.of_some (hv : w.vault v = some vault)
    (hcovered : vault.depositedBalance ≤ w.token.balanceOf v)
    (hclosed : ∀ spender, w.token.allowance v spender = 0)
    (howner : w.manager.vaultOwners v ≠ 0 → vault.owner = w.manager.vaultOwners v)
    (hagrees : w.manager.vaultOwners v ≠ 0 → vault.hasLeft = false →
      vault.depositedBalance = w.manager.staked v)
    (hzero : w.manager.vaultOwners v = 0 → w.manager.staked v = 0) : w.SoundAt v := by
  refine ⟨?_, ?_, fun hreg => ⟨vault, hv, howner hreg⟩, hzero, ?_⟩
  · simp [hv, hcovered]
  · intro b hb
    rw [hv] at hb
    cases hb
    exact hagrees
  · simp [hv, hclosed]

theorem SoundAt.frame (h : w.SoundAt a) (hvault : w'.vault a = w.vault a)
    (hcovered : ∀ vault, w.vault a = some vault → w.token.balanceOf a ≤ w'.token.balanceOf a)
    (hclosed : ∀ vault, w.vault a = some vault → ∀ spender, w'.token.allowance a spender = 0)
    (howner : w'.manager.vaultOwners a = w.manager.vaultOwners a)
    (hstaked : w'.manager.staked a = w.manager.staked a) : w'.SoundAt a := by
  refine ⟨fun b hb => ?_, ?_, ?_, ?_, ?_⟩
  · rw [hvault] at hb
    exact (h.covered b hb).trans (hcovered b hb)
  · rw [hvault, howner, hstaked]
    exact h.agrees
  · rw [hvault, howner]
    exact h.registered
  · rw [howner, hstaked]
    exact h.unregistered
  · rw [hvault]
    exact hclosed

theorem Sound.vaultOwners_eq_zero (h : w.Sound) (hv : w.vault v = none) :
    w.manager.vaultOwners v = 0 := by
  by_contra hreg
  obtain ⟨b, hb, -⟩ := (h.each v).registered hreg
  rw [hv] at hb
  cases hb

/-- What a transaction at `now` on a vault leaves in place: the owner and, while the lock runs,
the deposit and the lock. -/
structure Keeps (now : Nat) (vault vault' : StakeVault) : Prop where
  owner : vault'.owner = vault.owner
  deposit : now < vault.lockUntil → vault.depositedBalance ≤ vault'.depositedBalance
  lock : now < vault.lockUntil → vault.lockUntil ≤ vault'.lockUntil

/-- No vault but `v` is written, and `v` keeps what is locked in it. -/
def Writes (w w' : Vaults) (now : Nat) (v : Address) : Prop :=
  ∃ vault vault', w.vault v = some vault ∧ w'.vault = Function.update w.vault v (some vault') ∧
    Keeps now vault vault'

theorem vaultAt_ok : w.vaultAt v = .ok vault ↔ w.vault v = some vault := by
  unfold vaultAt
  split <;> simp [*]

theorem ownedBy_ok (h : w.ownedBy sender v = .ok vault) :
    w.vault v = some vault ∧ sender = vault.owner := by
  simp only [ownedBy, bind_eq_ok, vaultAt_ok, StakeVault.onlyOwner, failIf_eq_ok] at h
  obtain ⟨_, hv, -, howner, ⟨⟩⟩ := h
  exact ⟨hv, not_not.mp howner⟩

theorem onlyNotLeft_ok (h : vault.onlyNotLeft = .ok u) : vault.hasLeft = false := by
  simpa [StakeVault.onlyNotLeft] using h

section
variable (h : w.Sound)
include h

/-- How a transaction on one vault keeps the invariant: what is left to check is the vault. -/
theorem Sound.write (hv : w.vault v = some vault)
    (hvault : w'.vault = update w.vault v (some vault')) (hkeeps : Keeps now vault vault')
    (hcovered : vault'.depositedBalance ≤ w'.token.balanceOf v)
    (hothers : ∀ a vault, w.vault a = some vault → a ≠ v →
      w.token.balanceOf a ≤ w'.token.balanceOf a)
    (hclosed : ∀ a vault, w.vault a = some vault → ∀ spender, w'.token.allowance a spender = 0)
    (howners : w'.manager.vaultOwners = w.manager.vaultOwners ∨
      w'.manager.vaultOwners = update w.manager.vaultOwners v 0)
    (hstaked : ∀ a, a ≠ v → w'.manager.staked a = w.manager.staked a)
    (hagrees : w'.manager.vaultOwners v ≠ 0 → vault'.hasLeft = false →
      vault'.depositedBalance = w'.manager.staked v)
    (hzero : w'.manager.vaultOwners v = 0 → w'.manager.staked v = 0)
    (hcalm : w'.manager.emergencyModeEnabled = w.manager.emergencyModeEnabled) :
    w'.Sound ∧ w.Writes w' now v := by
  refine ⟨⟨fun a => ?_, hcalm.trans h.calm⟩, vault, vault', hv, hvault, hkeeps⟩
  by_cases ha : a = v
  · subst ha
    have hself : w'.vault a = some vault' := by rw [hvault, update_self]
    refine .of_some hself hcovered (hclosed a vault hv) (fun hreg => ?_) hagrees hzero
    rcases howners with ho | ho
    · rw [ho] at hreg ⊢
      obtain ⟨b, hb, hown⟩ := (h.each a).registered hreg
      rw [hv] at hb
      cases hb
      exact hkeeps.owner.trans hown
    · rw [ho, update_self] at hreg
      exact absurd rfl hreg
  · refine (h.each a).frame ?_ (fun b hb => hothers a b hb ha) (hclosed a) ?_ (hstaked a ha)
    · rw [hvault, update_of_ne ha]
    · rcases howners with ho | ho
      · rw [ho]
      · rw [ho, update_of_ne ha]

-- Calls on one vault

theorem Sound.stake (hs : w.stake now sender v amount lockSeconds source = .ok w') :
    w'.Sound ∧ w.Writes w' now v := by
  simp only [Vaults.stake, bind_eq_ok, Checked.add_eq_ok] at hs
  obtain ⟨vault, hown, _, hleft, _, ⟨-, rfl⟩, ⟨manager, newLockUntil⟩, hstake, -, -, token, htoken,
    ⟨⟩⟩ := hs
  obtain ⟨hv, -⟩ := ownedBy_ok hown
  obtain ⟨hreg, hlock, l, rfl, hl⟩ := StakeManager.stake_ok hstake
  have htoken' (a : Address) (b : StakeVault) (hb : w.vault a = some b) :=
    Token.transferFrom_ok htoken ((h.each a).closed b hb)
  refine h.write hv rfl ⟨rfl, ?_, ?_⟩ ?_ ?_ (fun a b hb => (htoken' a b hb).1) (.inl rfl) ?_ ?_ ?_
    rfl
  · intro _
    exact Nat.le_add_right ..
  · intro _
    dsimp only at hlock ⊢
    omega
  · have := (htoken' v vault hv).2
    have := (h.each v).covered vault hv
    simp only [if_true] at *
    omega
  · intro a b hb ha
    have := (htoken' a b hb).2
    dsimp only
    omega
  · intro a ha
    exact (congrFun hl a).trans (update_of_ne ha _ _)
  · intro _ hleft'
    refine Eq.trans ?_ ((congrFun hl v).trans (update_self ..)).symm
    rw [(h.each v).agrees vault hv hreg hleft']
  · intro h0
    exact absurd h0 hreg

theorem Sound.lock (hs : w.lock now sender v lockSeconds = .ok w') :
    w'.Sound ∧ w.Writes w' now v := by
  simp only [Vaults.lock, bind_eq_ok] at hs
  obtain ⟨vault, hown, _, hleft, ⟨manager, newLockUntil⟩, hlock, -, -, ⟨⟩⟩ := hs
  obtain ⟨hv, -⟩ := ownedBy_ok hown
  obtain ⟨hreg, hlock, l, rfl, hl⟩ := StakeManager.lock_ok hlock
  refine h.write hv rfl ⟨rfl, fun _ => le_rfl, ?_⟩ ((h.each v).covered vault hv)
    (fun _ _ _ _ => le_rfl) (fun a => (h.each a).closed) (.inl rfl) (fun a _ => congrFun hl a) ?_ ?_
    rfl
  · intro _
    dsimp only at hlock ⊢
    omega
  · intro _ hleft'
    exact ((h.each v).agrees vault hv hreg hleft').trans (congrFun hl v).symm
  · intro h0
    exact absurd h0 hreg

theorem Sound.unstake (hs : w.unstake now sender v amount destination = .ok w') :
    w'.Sound ∧ w.Writes w' now v := by
  simp only [Vaults.unstake, bind_eq_ok, Checked.sub_eq_ok, failIf_eq_ok] at hs
  obtain ⟨vault, hown, -, -, -, hunlocked, -, hamount, _, ⟨hle, rfl⟩, manager, hunstake, token,
    htoken, ⟨⟩⟩ := hs
  obtain ⟨hv, -⟩ := ownedBy_ok hown
  obtain ⟨hreg, l, rfl, hl⟩ := StakeManager.unstake_ok hunstake
  obtain ⟨-, hallow, hmove⟩ := Token.transfer_ok htoken
  refine h.write hv rfl ⟨rfl, fun hlock => absurd hlock hunlocked, fun _ => le_rfl⟩ ?_
    (fun a b hb ha => Token.transfer_others htoken ha)
    (by simpa only [hallow] using fun a => (h.each a).closed)
    (.inl rfl) ?_ ?_ ?_ rfl
  · have := hmove v
    have := (h.each v).covered vault hv
    simp only [if_true] at *
    omega
  · intro a ha
    exact (congrFun hl a).trans (update_of_ne ha _ _)
  · intro _ hleft'
    refine Eq.trans ?_ ((congrFun hl v).trans (update_self ..)).symm
    rw [(h.each v).agrees vault hv hreg hleft']
  · intro h0
    exact absurd h0 hreg

/-- Whether or not the inner call goes through, the manager is left with no stake for a vault
that is not registered, and with the same stakes for the others. -/
theorem managerLeft_ok {manager : StakeManager} (hs : w.managerLeft msg reverts = manager) :
    (manager.vaultOwners = w.manager.vaultOwners ∨
        manager.vaultOwners = update w.manager.vaultOwners msg.sender 0) ∧
      (∀ a, a ≠ msg.sender → manager.staked a = w.manager.staked a) ∧
      (manager.vaultOwners msg.sender = 0 → manager.staked msg.sender = 0) ∧
      manager.emergencyModeEnabled = w.manager.emergencyModeEnabled := by
  unfold managerLeft at hs
  split at hs
  · subst hs
    exact ⟨.inl rfl, fun _ _ => rfl, (h.each _).unregistered, rfl⟩
  · split at hs
    · rename_i hleave
      subst hs
      obtain ⟨l, rfl, hl⟩ := StakeManager.leave_ok hleave
      refine ⟨.inr rfl, fun a ha => ?_, fun _ => ?_, rfl⟩
      · exact (congrFun hl a).trans (update_of_ne ha _ _)
      · exact (congrFun hl _).trans (update_self ..)
    · subst hs
      exact ⟨.inl rfl, fun _ _ => rfl, (h.each _).unregistered, rfl⟩

theorem Sound.leave (hs : w.leave now sender v destination reverts = .ok w') :
    w'.Sound ∧ w.Writes w' now v := by
  simp only [Vaults.leave, bind_eq_ok] at hs
  obtain ⟨vault, hown, -, -, hs⟩ := hs
  obtain ⟨hv, -⟩ := ownedBy_ok hown
  obtain ⟨howners, hstaked, hzero, hcalm⟩ :=
    managerLeft_ok h (rfl : w.managerLeft ⟨v, vault.codehash, now⟩ reverts = _)
  split at hs
  · rename_i hunlocked
    obtain ⟨token, htoken, hs⟩ := bind_eq_ok.mp hs
    obtain rfl := Except.ok.inj hs
    obtain ⟨-, hallow, -⟩ := Token.transfer_ok htoken
    refine h.write hv rfl ⟨rfl, fun hlock => absurd hunlocked (Nat.not_le.mpr hlock),
      fun _ => le_rfl⟩ (Nat.zero_le _) (fun a b hb ha => Token.transfer_others htoken ha)
      (by simpa only [hallow] using fun a => (h.each a).closed) howners hstaked (by simp) hzero
      hcalm
  · obtain rfl := Except.ok.inj hs
    exact h.write hv rfl ⟨rfl, fun _ => le_rfl, fun _ => le_rfl⟩ ((h.each v).covered vault hv)
      (fun _ _ _ _ => le_rfl) (fun a => (h.each a).closed) howners hstaked (by simp) hzero hcalm

theorem Sound.withdraw (hs : w.withdraw now sender v amount destination = .ok w') :
    w'.Sound ∧ w.Writes w' now v := by
  simp only [Vaults.withdraw, bind_eq_ok, StakeVault.totalAndExcess] at hs
  obtain ⟨vault, hown, _, -, _, htotal, _, hlocked, _, hleft, deposit, hdeposit, token, htoken,
    ⟨⟩⟩ := hs
  obtain ⟨hv, -⟩ := ownedBy_ok hown
  obtain ⟨-, hallow, hmove⟩ := Token.transfer_ok htoken
  have hcovered := (h.each v).covered vault hv
  have hmove := hmove v
  simp only [if_true] at hmove
  -- the excess is what the vault holds beyond its deposit, as the deposit is covered
  have hexcess : (if w.token.balanceOf v > vault.depositedBalance then
      w.token.balanceOf v - vault.depositedBalance else 0) =
      w.token.balanceOf v - vault.depositedBalance := by
    split <;> omega
  simp only [hexcess, failIf_eq_ok] at htotal hlocked hleft hdeposit
  have hdeposit : deposit + (amount - (w.token.balanceOf v - vault.depositedBalance)) =
      vault.depositedBalance := by
    split at hdeposit
    · simp only [bind_eq_ok, Checked.sub_eq_ok] at hdeposit
      omega
    · cases hdeposit
      omega
  refine h.write hv rfl ⟨rfl, ?_, fun _ => le_rfl⟩ ?_
    (fun a b hb ha => Token.transfer_others htoken ha)
    (by simpa only [hallow] using fun a => (h.each a).closed)
    (.inl rfl) (fun _ _ => rfl) ?_ ((h.each v).unregistered) rfl
  · intro hlock
    dsimp only
    omega
  · dsimp only
    omega
  · intro hreg hleft'
    refine Eq.trans ?_ ((h.each v).agrees vault hv hreg hleft')
    dsimp only at hleft' ⊢
    simp only [hleft', and_true] at hleft
    omega

-- New vaults and migrations

theorem Sound.create (hv : w.Unused v) : Sound { w with
      vault := update w.vault v (some (.initialized owner codehash)),
      manager := { w.manager with toRegistry := w.manager.register v owner } } := by
  obtain ⟨-, hnone, hallow⟩ := hv
  have hzero := (h.each v).unregistered (h.vaultOwners_eq_zero hnone)
  refine ⟨fun a => ?_, h.calm⟩
  by_cases ha : a = v
  · subst ha
    refine .of_some (update_self ..) (Nat.zero_le _)
      hallow (fun _ => ?_) (fun _ _ => hzero.symm) (fun _ => hzero)
    exact (update_self (β := fun _ => Address) ..).symm
  · exact (h.each a).frame (update_of_ne ha _ _) (fun _ _ => le_rfl) (h.each a).closed
      (update_of_ne ha _ _) rfl

theorem Sound.createVault (hv : w.Unused v)
    (hs : w.createVault now sender factory v codehash = .ok w') :
    w'.Sound ∧ ∀ a, a ≠ v → w'.vault a = w.vault a := by
  simp only [Vaults.createVault, bind_eq_ok] at hs
  obtain ⟨manager, hregister, ⟨⟩⟩ := hs
  obtain ⟨-, rfl⟩ := StakeManager.registerVault_ok hregister
  exact ⟨h.create hv, fun a ha => update_of_ne ha _ _⟩

/-- The deposit of `v` and all its tokens are handed over to the vault `migrateTo` of the same
owner, locked as they were. -/
structure HandsOver (w w' : Vaults) (v migrateTo : Address) (vault : StakeVault) : Prop where
  source : w'.vault v = some { vault with depositedBalance := 0, lockUntil := 0 }
  target : ∃ target, w'.vault migrateTo = some target ∧ target.owner = vault.owner ∧
    target.lockUntil = vault.lockUntil ∧ target.depositedBalance = vault.depositedBalance
  tokens : w'.token.balanceOf v = 0 ∧
    w'.token.balanceOf migrateTo = w.token.balanceOf migrateTo + w.token.balanceOf v

theorem Sound.handOver (hv : w.vault v = some vault) (hleft : vault.hasLeft = false)
    (hne : migrateTo ≠ v) (htarget : w.vault migrateTo = some target)
    (hfresh : target.hasLeft = false) (howner : target.owner = vault.owner)
    (hs : w.handOver now v vault migrateTo = .ok w') :
    w'.Sound ∧ w.HandsOver w' v migrateTo vault ∧ target.depositedBalance = 0 ∧
      ∀ a, a ≠ v → a ≠ migrateTo → w'.vault a = w.vault a := by
  simp only [Vaults.handOver, bind_eq_ok, vaultAt_ok] at hs
  obtain ⟨manager, hmigrate, _, htarget', token, htoken, hs⟩ := hs
  rw [htarget] at htarget'
  cases htarget'
  cases hs
  obtain ⟨hreg, hregTo, hempty, l, rfl, hl⟩ := StakeManager.migrateToVault_ok hmigrate
  obtain ⟨-, hallow, hmove⟩ := Token.transfer_ok htoken
  simp only [setVault] at hallow hmove
  have hdeposit := (h.each v).agrees vault hv hreg hleft
  have hcovered := (h.each v).covered vault hv
  have hmoveV := hmove v
  have hmoveTo := hmove migrateTo
  simp only [if_true, hne, hne.symm, if_false] at hmoveV hmoveTo
  obtain ⟨b, hb, hown⟩ := (h.each migrateTo).registered hregTo
  rw [htarget] at hb
  cases hb
  have hmoved : update (update w.vault migrateTo (some { target with
      lockUntil := vault.lockUntil, depositedBalance := vault.depositedBalance })) v
      (some { vault with depositedBalance := 0, lockUntil := 0 }) migrateTo =
      some { target with
        lockUntil := vault.lockUntil, depositedBalance := vault.depositedBalance } := by
    simp [hne]
  refine ⟨⟨fun a => ?_, h.calm⟩, ⟨?_, ⟨_, hmoved, howner, rfl, rfl⟩, ?_, ?_⟩, ?_,
    fun a ha hto => ?_⟩
  · by_cases ha : a = v
    · subst ha
      refine .of_some (update_self ..) (Nat.zero_le _)
        ?_ (fun h0 => absurd ?_ h0) (fun h0 => absurd ?_ h0) (fun _ => ?_)
      · simpa only [hallow] using (h.each a).closed vault hv
      · exact update_self ..
      · exact update_self ..
      · exact (congrFun hl a).trans (update_self ..)
    · by_cases hto : a = migrateTo
      · subst hto
        have hstaked : l.staked a = w.manager.staked v := by
          rw [hl]
          simp [hne]
        have howners : (w.manager.deregister v).vaultOwners a = w.manager.vaultOwners a :=
          update_of_ne hne _ _
        refine .of_some hmoved ?_ ?_ (fun _ => hown.trans howners.symm)
          (fun _ _ => hdeposit.trans hstaked.symm) (fun h0 => ?_)
        · dsimp only
          omega
        · simpa only [hallow] using (h.each a).closed target htarget
        · exact absurd (howners.symm.trans h0) hregTo
      · refine (h.each a).frame ?_ (fun _ _ => Token.transfer_others htoken ha) ?_ ?_ ?_
        · simp [setVault, ha, hto]
        · simpa only [hallow] using (h.each a).closed
        · exact update_of_ne ha _ _
        · refine (congrFun hl a).trans ?_
          simp [ha, hto]
  · exact update_self ..
  · dsimp only
    omega
  · exact hmoveTo
  · rw [(h.each migrateTo).agrees target htarget hregTo hfresh]
    exact hempty
  · simp [setVault, ha, hto]

/-- The owner moves `v` to `migrateTo`, where nothing is deposited yet. -/
def Migrates (w w' : Vaults) (sender v migrateTo : Address) : Prop :=
  ∃ vault, w.vault v = some vault ∧ sender = vault.owner ∧ migrateTo ≠ v ∧
    w.HandsOver w' v migrateTo vault ∧
    (∀ target, w.vault migrateTo = some target →
      target.owner = vault.owner ∧ target.depositedBalance = 0) ∧
    ∀ a, a ≠ v → a ≠ migrateTo → w'.vault a = w.vault a

theorem Sound.migrateToVault (hs : w.migrateToVault now sender v migrateTo = .ok w') :
    w'.Sound ∧ w.Migrates w' sender v migrateTo := by
  simp only [Vaults.migrateToVault, bind_eq_ok, failIf_eq_ok, vaultAt_ok] at hs
  obtain ⟨vault, hown, _, hleft, -, hne, target, htarget, -, hfresh, -, howner, hs⟩ := hs
  obtain ⟨hv, hsender⟩ := ownedBy_ok hown
  obtain ⟨hsound, hhands, hempty, hothers⟩ := h.handOver hv (onlyNotLeft_ok hleft) hne htarget
    (by simpa using hfresh) (not_not.mp howner) hs
  refine ⟨hsound, vault, hv, hsender, hne, hhands, fun b hb => ?_, hothers⟩
  rw [htarget] at hb
  cases hb
  exact ⟨not_not.mp howner, hempty⟩

theorem Sound.replaceVault (hto : w.Unused migrateTo)
    (hs : w.replaceVault now sender v migrateTo codehash = .ok w') :
    w'.Sound ∧ w.Migrates w' sender v migrateTo := by
  simp only [Vaults.replaceVault, bind_eq_ok] at hs
  obtain ⟨vault, hown, _, hleft, manager, hcreate, hs⟩ := hs
  obtain ⟨hv, hsender⟩ := ownedBy_ok hown
  obtain ⟨hreg, rfl⟩ := StakeManager.createMigrationVault_ok hcreate
  have hnone := hto.2.1
  have hne : migrateTo ≠ v := by
    rintro rfl
    rw [hv] at hnone
    cases hnone
  obtain ⟨b, hb, howner⟩ := (h.each v).registered hreg
  rw [hv] at hb
  cases hb
  have hv' : update w.vault migrateTo
      (some (.initialized (w.manager.vaultOwners v) codehash)) v = some vault := by
    rw [update_of_ne hne.symm, hv]
  obtain ⟨hsound, ⟨hsource, htarget, htokens⟩, -, hothers⟩ := (h.create hto).handOver hv'
    (onlyNotLeft_ok hleft) hne (update_self ..) rfl howner.symm hs
  refine ⟨hsound, vault, hv, hsender, hne, ⟨hsource, htarget, htokens⟩, ?_, fun a ha ha' => ?_⟩
  · simp [hnone]
  · rw [hothers a ha ha']
    exact update_of_ne ha' _ _

end

-- Whole runs

/-- What was deposited in `vault`, with its lock, is still deposited at `v`. -/
def Stays (w' : Vaults) (v : Address) (vault : StakeVault) : Prop :=
  ∃ vault', w'.vault v = some vault' ∧ vault'.owner = vault.owner ∧
    vault.depositedBalance ≤ vault'.depositedBalance ∧
    (0 < vault.depositedBalance → vault.lockUntil ≤ vault'.lockUntil)

theorem Stays.of_eq (hv : w.vault v = some vault) (h : w'.vault v = w.vault v) : Stays w' v vault :=
  ⟨vault, h.trans hv, rfl, le_rfl, fun _ => le_rfl⟩

theorem Writes.stays (h : w.Writes w' now a) (hv : w.vault v = some vault)
    (hlock : now < vault.lockUntil) : Stays w' v vault := by
  obtain ⟨b, b', hb, hwrite, hkeeps⟩ := h
  by_cases ha : v = a
  · subst ha
    rw [hv] at hb
    cases hb
    refine ⟨b', ?_, hkeeps.owner, hkeeps.deposit hlock, fun _ => hkeeps.lock hlock⟩
    rw [hwrite, update_self]
  · refine .of_eq hv ?_
    rw [hwrite, update_of_ne ha]

def Tx.IsMigration (tx : Tx) (v migrateTo : Address) : Prop :=
  tx.action = .migrateToVault v migrateTo ∨
    ∃ codehash, tx.action = .replaceVault v migrateTo codehash

/-- The deposit stays, or the transaction is its owner's migration of it. -/
def LockHolds (w w' : Vaults) (tx : Tx) (v : Address) (vault : StakeVault) : Prop :=
  Stays w' v vault ∨
    ∃ migrateTo, tx.IsMigration v migrateTo ∧ tx.sender = vault.owner ∧ migrateTo ≠ v ∧
      w.HandsOver w' v migrateTo vault

theorem Migrates.lockHolds (h : w.Migrates w' tx.sender a migrateTo)
    (htx : tx.IsMigration a migrateTo) (hv : w.vault v = some vault) :
    w.LockHolds w' tx v vault := by
  obtain ⟨b, hb, hsender, hne, hhands, hempty, hothers⟩ := h
  by_cases ha : v = a
  · subst ha
    rw [hv] at hb
    cases hb
    exact .inr ⟨migrateTo, htx, hsender, hne, hhands⟩
  · by_cases hto : v = migrateTo
    · subst hto
      obtain ⟨howner, hzero⟩ := hempty vault hv
      obtain ⟨target, htarget, howner', -, -⟩ := hhands.target
      refine .inl ⟨target, htarget, howner'.trans howner.symm, ?_, ?_⟩
      · rw [hzero]
        exact Nat.zero_le _
      · rw [hzero]
        intro h0
        exact absurd h0 (Nat.lt_irrefl 0)
    · exact .inl (.of_eq hv (hothers v ha hto))

theorem Sound.apply (h : w.Sound) (hp : w.Possible tx) (ha : w.apply tx = .ok w') :
    w'.Sound ∧ ∀ v vault, w.vault v = some vault → tx.now < vault.lockUntil →
      w.LockHolds w' tx v vault := by
  obtain ⟨sender, now, action⟩ := tx
  obtain ⟨-, hsender, hp⟩ := hp
  have hwrites {v : Address} (hw : w'.Sound ∧ w.Writes w' now v) : w'.Sound ∧ ∀ v vault,
      w.vault v = some vault → now < vault.lockUntil →
      w.LockHolds w' ⟨sender, now, action⟩ v vault :=
    ⟨hw.1, fun _ _ hv hlock => .inl (hw.2.stays hv hlock)⟩
  have hnever {a : Address} {b : StakeVault} (hb : w.vault a = some b) : a ≠ sender := by
    rintro rfl
    rw [hsender] at hb
    cases hb
  cases action with
  | createVault factory v codehash =>
    obtain ⟨hsound, hothers⟩ := h.createVault hp ha
    refine ⟨hsound, fun a b hb _ => .inl (.of_eq hb (hothers a ?_))⟩
    rintro rfl
    rw [hp.2.1] at hb
    cases hb
  | stake v amount lockSeconds source => exact hwrites (h.stake ha)
  | lock v lockSeconds => exact hwrites (h.lock ha)
  | unstake v amount destination => exact hwrites (h.unstake ha)
  | leave v destination reverts => exact hwrites (h.leave ha)
  | withdraw v amount destination => exact hwrites (h.withdraw ha)
  | migrateToVault v migrateTo =>
    obtain ⟨hsound, hmigrates⟩ := h.migrateToVault ha
    exact ⟨hsound, fun a b hb _ => hmigrates.lockHolds (.inl rfl) hb⟩
  | replaceVault v migrateTo codehash =>
    obtain ⟨hsound, hmigrates⟩ := h.replaceVault hp ha
    exact ⟨hsound, fun a b hb _ => hmigrates.lockHolds (.inr ⟨codehash, rfl⟩) hb⟩
  | emergencyExit v destination =>
    simp only [Vaults.apply, Vaults.emergencyExit, bind_eq_ok, failIf_eq_ok] at ha
    obtain ⟨-, -, -, -, -, hexit, -⟩ := ha
    exact absurd h.calm hexit
  | transfer dst amount =>
    obtain ⟨token, htoken, rfl⟩ := map_eq_ok.mp ha
    obtain ⟨-, hallow, -⟩ := Token.transfer_ok htoken
    refine ⟨⟨fun a => (h.each a).frame rfl ?_ ?_ rfl rfl, h.calm⟩,
      fun a b hb _ => .inl (.of_eq hb rfl)⟩
    · intro b hb
      exact Token.transfer_others htoken (hnever hb)
    · simpa only [hallow] using (h.each a).closed
  | transferFrom src dst amount =>
    obtain ⟨token, htoken, rfl⟩ := map_eq_ok.mp ha
    refine ⟨⟨fun a => (h.each a).frame rfl ?_ ?_ rfl rfl, h.calm⟩,
      fun a b hb _ => .inl (.of_eq hb rfl)⟩
    · intro b hb
      have := (Token.transferFrom_ok htoken ((h.each a).closed b hb)).2
      dsimp only
      omega
    · intro b hb
      exact (Token.transferFrom_ok htoken ((h.each a).closed b hb)).1
  | approve spender amount =>
    cases ha
    refine ⟨⟨fun a => (h.each a).frame rfl (fun _ _ => le_rfl) ?_ rfl rfl, h.calm⟩,
      fun a b hb _ => .inl (.of_eq hb rfl)⟩
    intro b hb
    simp only [Token.approve, update_of_ne (hnever hb)]
    exact (h.each a).closed b hb
  | manager codehash call =>
    obtain ⟨⟨manager, r⟩, hcall, rfl⟩ := map_eq_ok.mp ha
    have howner := h.vaultOwners_eq_zero hsender
    obtain ⟨hstaked, howners, hcalm⟩ := StakeManager.call_frame hcall howner
      ((h.each sender).unregistered howner) (by rintro v o k rfl; exact hp)
      (by rintro rfl; exact hp)
    refine ⟨⟨fun a => (h.each a).frame rfl (fun _ _ => le_rfl) (h.each a).closed
      (congrFun howners a) (congrFun hstaked a), hcalm.trans h.calm⟩,
      fun a b hb _ => .inl (.of_eq hb rfl)⟩

theorem Reachable.sound (h : Reachable w t) : w.Sound :=
  h.invariant (I := fun w _ => w.Sound) (fun _ _ h => h.sound)
    (fun _ _ _ _ h _ hs => (h.apply hs.1 hs.2).1)

/-- A registered vault that has not left has on deposit what the manager has staked for it, its
tokens cover the deposit, and before the end of the lock no transaction takes any of it away,
except for a migration of all of it to another vault of its owner. -/
theorem locked_deposit_stays (h : Reachable w t) (hv : w.vault v = some vault) :
    vault.depositedBalance ≤ w.token.balanceOf v ∧
      (w.manager.vaultOwners v ≠ 0 → vault.hasLeft = false →
        vault.depositedBalance = w.manager.staked v) ∧
      ∀ tx w', t ≤ tx.now → w.Possible tx → w.apply tx = .ok w' → tx.now < vault.lockUntil →
        w.LockHolds w' tx v vault := by
  have hsound := h.sound
  refine ⟨(hsound.each v).covered vault hv, (hsound.each v).agrees vault hv, ?_⟩
  intro tx w' _ hp ha hlock
  exact (hsound.apply hp ha).2 v vault hv hlock

def Routine (w : Vaults) (tx : Tx) : Bool :=
  tx.sender ≠ 0 && (w.vault tx.sender).isNone &&
    match tx.action with
    | .createVault .. | .replaceVault .. => false
    | .manager _ (.registerVault ..) | .manager _ .enableEmergencyMode => false
    | _ => true

theorem Routine.possible (h : w.Routine tx = true) : w.Possible tx := by
  simp only [Routine, Bool.and_eq_true, decide_eq_true_eq, Option.isNone_iff_eq_none] at h
  obtain ⟨⟨h0, hnone⟩, haction⟩ := h
  refine ⟨h0, hnone, ?_⟩
  split <;> simp_all

def tokens : Token where
  balanceOf a := if a = 4 then 1000 else 0
  allowance a spender := if a = 4 ∧ spender = 5 then 1000 else 0

def vaultCreated : Vaults where
  manager := { StakeManager.initialized 1 10 with
    vaultFactory := 2
    trustedCodehashes := Function.update (fun _ => false) 3 true
    toRegistry := Registry.empty.register 5 4 }
  token := tokens
  vault := Function.update (fun _ => none) 5 (some (.initialized 4 3))

theorem vaultCreated_reachable : Reachable vaultCreated 11 := by
  have h₀ : Reachable ⟨.initialized 1 10, tokens, fun _ => none⟩ 10 :=
    .init 10 ⟨⟨1, 10, rfl⟩, fun _ => rfl⟩
  have h₁ := h₀.step (a := ⟨1, 10, .manager 0 (.setVaultFactory 2)⟩) le_rfl
    ⟨⟨by decide, rfl, trivial⟩, rfl⟩
  have h₂ := h₁.step (a := ⟨1, 10, .manager 0 (.setTrustedCodehash 3 true)⟩) le_rfl
    ⟨⟨by decide, rfl, trivial⟩, rfl⟩
  have hclosed (spender : Address) : tokens.allowance 5 spender = 0 := by simp [tokens]
  have h₃ := h₂.step (a := (⟨4, 11, .createVault 2 5 3⟩ : Tx)) (by decide)
    ⟨⟨by decide, rfl, by decide, rfl, hclosed⟩, rfl⟩
  exact h₃

theorem exists_reachable_vaultCreated (l : List Tx) (observe : Vaults → β)
    (h : ((Runs.run Tx.now (fun w tx => if w.Routine tx then w.apply tx else .error .noContract)
      vaultCreated 11 l).map fun p => (observe p.1, p.2)) = some (b, t)) :
    ∃ w, Reachable w t ∧ observe w = b :=
  Runs.exists_reachable_guarded Routine .noContract
    (fun _ _ _ hroutine h => ⟨Routine.possible hroutine, h⟩) vaultCreated_reachable l observe h

/-- Once the codehash of the vault is no longer trusted the manager does not let it go: the vault
has paid its deposit out, and the manager still counts it as staked. -/
theorem deposit_gone_while_registered :
    ∃ w t v vault, Reachable w t ∧ w.vault v = some vault ∧ w.manager.vaultOwners v ≠ 0 ∧
      vault.depositedBalance ≠ w.manager.staked v := by
  obtain ⟨w, hreach, hw⟩ : ∃ w, Reachable w 14 ∧
      ((w.vault 5).map (·.depositedBalance), w.manager.vaultOwners 5, w.manager.staked 5) =
        (some 0, 4, 1000) :=
    exists_reachable_vaultCreated [⟨4, 12, .stake 5 1000 0 4⟩,
      ⟨1, 13, .manager 0 (.setTrustedCodehash 3 false)⟩, ⟨4, 14, .leave 5 4 false⟩] _
      (by decide +kernel)
  simp only [Prod.mk.injEq, Option.map_eq_some_iff] at hw
  obtain ⟨⟨vault, hv, hdeposit⟩, howner, hstaked⟩ := hw
  exact ⟨w, 14, 5, vault, hreach, hv, by rw [howner]; decide, by rw [hdeposit, hstaked]; decide⟩

theorem locked_deposit_stays_in_its_lock :
    ∃ w vault, Reachable w 12 ∧ w.vault 5 = some vault ∧ vault.depositedBalance = 1000 ∧
      12 < vault.lockUntil ∧ 1000 ≤ w.token.balanceOf 5 := by
  obtain ⟨w, hreach, hw⟩ : ∃ w, Reachable w 12 ∧
      (w.vault 5).map (fun vault => (vault.depositedBalance, vault.lockUntil)) =
        some (1000, 12 + MIN_LOCKUP_PERIOD) :=
    exists_reachable_vaultCreated [⟨4, 12, .stake 5 1000 MIN_LOCKUP_PERIOD 4⟩] _ (by decide +kernel)
  simp only [Prod.mk.injEq, Option.map_eq_some_iff] at hw
  obtain ⟨vault, hv, hdeposit, hlock⟩ := hw
  refine ⟨w, vault, hreach, hv, hdeposit, by rw [hlock]; decide, ?_⟩
  rw [← hdeposit]
  exact (locked_deposit_stays hreach hv).1

end StatusNetwork.Staking.Vaults
