import Mathlib.Data.UInt
import StatusNetwork.Base.Control
import StatusNetwork.RlnProver.TxCounter

/-!
# The quota bonus

Models `add_quota_bonus`, `get_tx_counter` and `user_tier_info` of `user_db_2.rs`, and the part of
`remove_from_deny_list` that grants a bonus. The counters of a row are for the epoch in it; whoever
reads them in another epoch takes them as zero.
-/

namespace StatusNetwork.RlnProver

inductive UserTierInfoError2
  | notRegistered
  | contract
  | db
  deriving DecidableEq

structure Tier where
  name : String
  txPerEpoch : UInt32
  deriving DecidableEq

structure UserTierInfo2 where
  currentEpoch : Int
  epochTxCount : Nat
  tierName : Option String
  tierLimit : Option UInt32
  deriving DecidableEq

def countersFromKey (epochStore : Int) (model : TxCounter) : Nat × Int :=
  if model.epoch = epochStore then (asU64 model.epochCounter, model.quotaBonus) else (0, 0)

def getTxCounter (epochStore : Int) : Option TxCounter → Except UserTierInfoError2 (Nat × Int)
  | none => .error .notRegistered
  | some res => .ok (countersFromKey epochStore res)

/-- The `UPDATE` of an address without a row does nothing, and a sum that is no `BIGINT` is an error
of the database. -/
def addQuotaBonus (epochStore bonus : Int) :
    Option TxCounter → Except UserTierInfoError2 (Option TxCounter)
  | none => .ok none
  | some row => do
    let quotaBonus := row.quotaBonus + bonus
    failIf (quotaBonus < -2 ^ 63 ∨ 2 ^ 63 ≤ quotaBonus) .db
    .ok (some { row with epoch := epochStore, quotaBonus })

/-- `tier.tx_per_epoch + i64::from(quota_bonus) as u32`. -/
def tierLimit (tier : Tier) (quotaBonus : Int) : UInt32 :=
  tier.txPerEpoch + UInt32.ofInt quotaBonus

/-- `tierMatch` is the tier of what the karma contract answers. -/
def userTierInfo (epochStore : Int) (row : Option TxCounter)
    (tierMatch : Except UserTierInfoError2 (Option Tier)) :
    Except UserTierInfoError2 UserTierInfo2 := do
  failIf row.isNone .notRegistered
  let tier ← tierMatch
  let counters ← getTxCounter epochStore row
  .ok {
    currentEpoch := epochStore
    epochTxCount := counters.1
    tierName := tier.map Tier.name
    tierLimit := tier.map (tierLimit · counters.2) }

def getUserTierTxLimit (tierMatch : Except UserTierInfoError2 (Option Tier)) :
    Except UserTierInfoError2 UInt32 := do
  let tier ← tierMatch
  .ok ((tier.map Tier.txPerEpoch).getD 0)

def removeFromDenyList (epochStore : Int) (resetEpochCounter : Option Bool)
    (tierMatch : Except UserTierInfoError2 (Option Tier)) (row : Option TxCounter) :
    Except UserTierInfoError2 (Option TxCounter) :=
  if resetEpochCounter.getD false then
    let bonus := match getUserTierTxLimit tierMatch with
      | .ok limit => (limit.toNat : Int)
      | .error _ => 0
    addQuotaBonus epochStore bonus row
  else .ok row

-- Reading the counters after a grant

/-- What a row says in an epoch it is not for is not counted. -/
def Stale (epochStore : Int) (row : TxCounter) : Prop :=
  row.epoch ≠ epochStore ∧ ¬ (asU64 row.epochCounter = 0 ∧ row.quotaBonus = 0)

theorem addQuotaBonus_ok (h : addQuotaBonus epochStore bonus (some row) = .ok row') :
    ∃ r, row' = some r ∧
      countersFromKey epochStore r = (asU64 row.epochCounter, row.quotaBonus + bonus) := by
  simp only [addQuotaBonus, bind_eq_ok] at h
  obtain ⟨_, -, ⟨⟩⟩ := h
  exact ⟨_, rfl, if_pos rfl⟩

theorem countersFromKey_eq_iff :
    countersFromKey epochStore row = (asU64 row.epochCounter, row.quotaBonus) ↔
      ¬ Stale epochStore row := by
  simp only [countersFromKey, Stale]
  split
  · simp [*]
  · rename_i hepoch
    simp only [Prod.mk.injEq, ne_eq, hepoch, not_false_eq_true, true_and, not_not]
    exact and_congr eq_comm eq_comm

theorem tierLimit_toNat (tier : Tier) (quotaBonus : Int) :
    ((tierLimit tier quotaBonus).toNat : Int) = (tier.txPerEpoch.toNat + quotaBonus) % 2 ^ 32 := by
  rw [tierLimit, UInt32.toNat_add, UInt32.ofInt]
  simp
  omega

/-- A bonus leaves the counter of the epoch alone and adds itself to the bonus of the epoch exactly
if the row is not stale, and raises the limit of the tier as well if that is a number of thirty-two
bits. -/
theorem quota_bonus_granted (tier : Tier)
    (h : addQuotaBonus epochStore bonus (some row) = .ok row') :
    ∃ counter quotaBonus, getTxCounter epochStore (some row) = .ok (counter, quotaBonus) ∧
      (getTxCounter epochStore row' = .ok (counter, quotaBonus + bonus) ↔
        ¬ Stale epochStore row) ∧
      ((getTxCounter epochStore row' = .ok (counter, quotaBonus + bonus) ∧
        ∃ limit : UInt32, limit.toNat = tier.txPerEpoch.toNat + (quotaBonus + bonus) ∧
          userTierInfo epochStore row' (.ok (some tier)) =
            .ok ⟨epochStore, counter, some tier.name, some limit⟩) ↔
        ¬ Stale epochStore row ∧ 0 ≤ tier.txPerEpoch.toNat + (quotaBonus + bonus) ∧
          tier.txPerEpoch.toNat + (quotaBonus + bonus) < 2 ^ 32) := by
  obtain ⟨r, rfl, hr⟩ := addQuotaBonus_ok h
  rcases hcounters : countersFromKey epochStore row with ⟨counter, quotaBonus⟩
  have hget : getTxCounter epochStore (some r) = .ok (counter, quotaBonus + bonus) ↔
      ¬ Stale epochStore row := by
    rw [← countersFromKey_eq_iff, hcounters, getTxCounter, hr]
    simp [eq_comm]
  refine ⟨counter, quotaBonus, congrArg _ hcounters, hget, ?_⟩
  rw [hget]
  refine and_congr_right fun hrow => ?_
  rw [← countersFromKey_eq_iff, hcounters] at hrow
  obtain ⟨rfl, rfl⟩ := Prod.mk.inj hrow
  have hlimit := tierLimit_toNat tier (row.quotaBonus + bonus)
  have hinfo : userTierInfo epochStore (some r) (.ok (some tier)) = .ok ⟨epochStore,
      asU64 row.epochCounter, some tier.name, some (tierLimit tier (row.quotaBonus + bonus))⟩ := by
    simp [userTierInfo, getTxCounter, hr, failIf]
  rw [hinfo]
  constructor
  · rintro ⟨_, heq, ⟨⟩⟩
    omega
  · rintro ⟨h₀, hlt⟩
    exact ⟨_, hlimit.trans (Int.emod_eq_of_lt h₀ hlt), rfl⟩

theorem quota_bonus_granted_twice : ∃ row' limit,
    addQuotaBonus 7 10 (some ⟨7, 4, 10⟩) = .ok row' ∧ getTxCounter 7 row' = .ok (4, 20) ∧
      userTierInfo 7 row' (.ok (some ⟨"basic", 10⟩)) = .ok ⟨7, 4, some "basic", some limit⟩ ∧
      limit.toNat = 30 := by
  have hgrant : addQuotaBonus 7 10 (some ⟨7, 4, 10⟩) = .ok (some ⟨7, 4, 20⟩) := rfl
  obtain ⟨_, _, ⟨⟩, -, hiff⟩ := quota_bonus_granted ⟨"basic", 10⟩ hgrant
  obtain ⟨hget, limit, hlimit, hinfo⟩ := hiff.mpr ⟨fun h => h.1 rfl, by decide, by decide⟩
  exact ⟨_, limit, hgrant, hget, hinfo, Int.ofNat_inj.mp hlimit⟩

/-- A premium payment in a new epoch restores the five transactions of the last one, and the limit
of a tier of `2 ^ 31` transactions wraps to zero when such a payment doubles it. -/
theorem stale_counter_and_wrapped_limit :
    (∃ row', getTxCounter 2 (some ⟨1, 5, 3⟩) = .ok (0, 0) ∧
      removeFromDenyList 2 (some true) (.ok (some ⟨"basic", 10⟩)) (some ⟨1, 5, 3⟩) = .ok row' ∧
      getTxCounter 2 row' = .ok (5, 13)) ∧
    ∃ row', removeFromDenyList 2 (some true) (.ok (some ⟨"top", 2 ^ 31⟩)) (some ⟨2, 5, 0⟩) =
        .ok row' ∧
      userTierInfo 2 row' (.ok (some ⟨"top", 2 ^ 31⟩)) = .ok ⟨2, 5, some "top", some 0⟩ :=
  ⟨⟨some ⟨2, 5, 13⟩, by decide +kernel⟩, some ⟨2, 5, 2 ^ 31⟩, by decide +kernel⟩

end StatusNetwork.RlnProver
