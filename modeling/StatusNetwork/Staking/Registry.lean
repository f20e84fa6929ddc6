import StatusNetwork.Staking.VaultLaws

/-!
# The registry of vaults

A vault is listed once, for the owner it has on record. So what the manager reports for
different accounts are rewards of different vaults.
-/

namespace StatusNetwork.Staking

namespace Registry

variable {r : Registry}

structure WellFormed (r : Registry) : Prop where
  nodup : ∀ owner, (r.vaults owner).Nodup
  owned : ∀ owner, ∀ v ∈ r.vaults owner, r.vaultOwners v = owner ∧ owner ≠ 0

theorem WellFormed.empty : Registry.empty.WellFormed :=
  ⟨fun _ => List.nodup_nil, fun _ _ h => nomatch h⟩

theorem swap_perm (v : Address) (pre post : List Address) :
    (((pre ++ v :: post).set pre.length ((pre ++ v :: post).getLastD 0)).dropLast).Perm
      (pre ++ post) := by
  rcases List.eq_nil_or_concat' post with rfl | ⟨post, z, rfl⟩
  · simp
  · have hlast : (pre ++ v :: (post ++ [z])).getLastD 0 = z := by
      rw [← List.cons_append, ← List.append_assoc, List.getLastD_concat]
    have hset : (pre ++ v :: (post ++ [z])).set pre.length z = (pre ++ z :: post) ++ [z] := by simp
    rw [hlast, hset, List.dropLast_concat]
    exact (List.perm_append_singleton z post).symm.append_left pre

theorem swapRemove_perm (v : Address) (l : List Address) : (swapRemove v l).Perm (l.erase v) := by
  unfold swapRemove
  split
  · rename_i i hi
    obtain ⟨hlt, hv, hbefore⟩ := List.findIdx?_eq_some_iff_getElem.mp hi
    simp only [decide_eq_true_eq] at hv hbefore
    have hl : l = l.take i ++ v :: l.drop (i + 1) := by
      rw [← hv, List.getElem_cons_drop, List.take_append_drop]
    have hpre : v ∉ l.take i := by
      intro hmem
      obtain ⟨j, hj, hj'⟩ := List.getElem_of_mem hmem
      simp only [List.length_take] at hj
      refine hbefore j (by omega) ?_
      simpa using hj'
    have hlen : (l.take i).length = i := by simp; omega
    have hswap := swap_perm v (l.take i) (l.drop (i + 1))
    rw [← hl, hlen] at hswap
    have herase : l.erase v = l.take i ++ l.drop (i + 1) := by
      conv_lhs => rw [hl]
      rw [List.erase_append_right _ hpre, List.erase_cons_head]
    rw [herase]
    exact hswap
  · rename_i hi
    rw [List.findIdx?_eq_none_iff] at hi
    rw [List.erase_of_not_mem]
    intro hmem
    simpa using hi v hmem

theorem WellFormed.register (h : r.WellFormed) (hv : r.vaultOwners v = 0) (howner : owner ≠ 0) :
    (r.register v owner).WellFormed := by
  have hnew (o : Address) : v ∉ r.vaults o := by
    intro hmem
    obtain ⟨ho, h0⟩ := h.owned o v hmem
    exact h0 (ho.symm.trans hv)
  refine ⟨fun o => ?_, fun o u hu => ?_⟩
  · by_cases ho : o = owner
    · subst ho
      simp only [Registry.register, Function.update_self]
      exact List.nodup_append'.mpr ⟨h.nodup o, List.nodup_singleton v, by simpa using hnew o⟩
    · simpa [Registry.register, ho] using h.nodup o
  · by_cases huv : u = v
    · subst huv
      by_cases ho : o = owner
      · subst ho
        exact ⟨by simp [Registry.register], howner⟩
      · simp only [Registry.register, Function.update_of_ne ho] at hu
        exact absurd hu (hnew o)
    · have hold : u ∈ r.vaults o := by
        by_cases ho : o = owner
        · subst ho
          simpa [Registry.register, huv] using hu
        · simpa [Registry.register, ho] using hu
      simpa [Registry.register, huv] using h.owned o u hold

theorem WellFormed.deregister (h : r.WellFormed) (v : Address) : (r.deregister v).WellFormed := by
  have hperm := swapRemove_perm v (r.vaults (r.vaultOwners v))
  refine ⟨fun o => ?_, fun o u hu => ?_⟩
  · by_cases ho : o = r.vaultOwners v
    · subst ho
      simp only [Registry.deregister, Function.update_self]
      exact hperm.nodup_iff.mpr ((h.nodup _).erase v)
    · simpa [Registry.deregister, ho] using h.nodup o
  · have hold : u ∈ r.vaults o ∧ u ≠ v := by
      by_cases ho : o = r.vaultOwners v
      · subst ho
        simp only [Registry.deregister, Function.update_self, hperm.mem_iff] at hu
        exact ((h.nodup _).mem_erase_iff.mp hu).symm
      · simp only [Registry.deregister, Function.update_of_ne ho] at hu
        refine ⟨hu, ?_⟩
        rintro rfl
        exact ho (h.owned o u hu).1.symm
    simpa [Registry.deregister, hold.2] using h.owned o u hold.1

end Registry

namespace StakeManager

variable {s : StakeManager}

/-- A vault that is registered has an owner, and one that is created is new. -/
def Call.Fresh (s : StakeManager) : Call → Prop
  | .registerVault _ owner _ => owner ≠ 0
  | .createMigrationVault vault => s.vaultOwners vault = 0
  | _ => True

theorem call_registry (h : s.call msg c = .ok (s', r)) :
    (∃ v owner codehash, c = .registerVault v owner codehash ∧ s.vaultOwners v = 0 ∧
      (s.vaults owner).length < s.maxVaultsPerUser ∧ s'.toRegistry = s.register v owner) ∨
    (∃ v, c = .createMigrationVault v ∧ s.vaultOwners msg.sender ≠ 0 ∧
      s'.toRegistry = s.register v (s.vaultOwners msg.sender)) ∨
    ((c = .leave ∨ ∃ v, c = .migrateToVault v) ∧ s'.toRegistry = s.deregister msg.sender) ∨
    s'.toRegistry = s.toRegistry := by
  cases call_done h with
  | registerVault hnew hroom => exact .inl ⟨_, _, _, rfl, hnew, hroom, rfl⟩
  | createMigrationVault howner => exact .inr (.inl ⟨_, rfl, howner, rfl⟩)
  | leave => exact .inr (.inr (.inl ⟨.inl rfl, rfl⟩))
  | migrateToVault => exact .inr (.inr (.inl ⟨.inr ⟨_, rfl⟩, rfl⟩))
  | setsUp _ _ hregistry => exact .inr (.inr (.inr hregistry))
  | stake | lock | unstake | updateRewards | setReward | updateAccount | redeemRewards
  | updateVault => exact .inr (.inr (.inr rfl))

theorem call_wellFormed (h : s.call msg c = .ok (s', r)) (hw : s.toRegistry.WellFormed)
    (hfresh : c.Fresh s) : s'.toRegistry.WellFormed := by
  rcases call_registry h with ⟨v, owner, codehash, rfl, hnew, -, hs⟩ | ⟨v, rfl, howner, hs⟩ |
    ⟨-, hs⟩ | hs
  · exact hs ▸ hw.register hnew hfresh
  · exact hs ▸ hw.register hfresh howner
  · exact hs ▸ hw.deregister _
  · exact hs ▸ hw

end StakeManager

end StatusNetwork.Staking
