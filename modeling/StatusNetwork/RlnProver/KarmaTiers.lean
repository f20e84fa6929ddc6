import StatusNetwork.Base.Checked
import StatusNetwork.Base.Tiling

/-!
# Karma tiers

Models `updateTiers` and `getTierIdByKarmaBalance` of `KarmaTiers.sol`, and `validate` and
`get_tier_by_karma` of `tier.rs`. The contract and the prover look an amount of karma up in the same
table. They agree on it, in a table the contract accepted, up to the maximum of the last tier.
-/

namespace StatusNetwork.KarmaTiers

open Checked (ArithError)
open Tiling (Tiles)

structure Tier where
  minKarma : Nat
  maxKarma : Nat
  name : String
  txPerEpoch : UInt32
  deriving DecidableEq

-- `KarmaTiers.sol`

inductive Error (A : Type)
  | ownableUnauthorizedAccount (account : A)
  | emptyTierName
  | emptyTiersArray
  | tierNameTooLong (nameLength maxLength : Nat)
  | nonContiguousTiers (index expectedMinKarma actualMinKarma : Nat)
  | invalidTierRange (minKarma maxKarma : Nat)
  | arith (e : ArithError)
  deriving DecidableEq

structure Contract (A : Type) where
  owner : A
  tiers : List Tier
  deriving DecidableEq

variable {A : Type}

def maxTierNameLength : Nat := 32

def validateTierName (name : String) : Except (Error A) Unit := do
  failIf (name.utf8ByteSize = 0) .emptyTierName
  failIf (maxTierNameLength < name.utf8ByteSize)
    (.tierNameTooLong name.utf8ByteSize maxTierNameLength)

/-- `i++` on a `uint8`. -/
def increment (i : Nat) : Except (Error A) Nat :=
  if i < 255 then .ok (i + 1) else .error (.arith .overflow)

/-- The first tier is checked before the loop. -/
def checkContiguous (i lastMaxKarma : Nat) (input : Tier) : Except (Error A) Unit :=
  if 0 < i then do
    let expectedMinKarma ← Checked.add .arith lastMaxKarma 1
    failIf (input.minKarma ≠ expectedMinKarma)
      (.nonContiguousTiers i expectedMinKarma input.minKarma)
  else .ok ()

/-- The loop of `updateTiers` from index `i` on. -/
def pushTiers (i lastMaxKarma : Nat) (tiers : List Tier) :
    List Tier → Except (Error A) (List Tier)
  | [] => .ok tiers
  | input :: rest => do
    validateTierName input.name
    failIf (input.maxKarma < input.minKarma) (.invalidTierRange input.minKarma input.maxKarma)
    checkContiguous i lastMaxKarma input
    let i ← increment i
    pushTiers i input.maxKarma (tiers ++ [input]) rest

def updateTiers [DecidableEq A] (c : Contract A) (sender : A) (newTiers : List Tier) :
    Except (Error A) (Contract A) := do
  failIf (sender ≠ c.owner) (.ownableUnauthorizedAccount sender)
  match newTiers with
  | [] => .error .emptyTiersArray
  | first :: rest => do
    failIf (first.minKarma ≠ 0) (.nonContiguousTiers 0 0 first.minKarma)
    let tiers ← pushTiers 0 0 [] (first :: rest)
    .ok { c with tiers }

def findUnmet (karmaBalance i : Nat) : List Tier → Except (Error A) (Option Nat)
  | [] => .ok none
  | tier :: rest =>
    if karmaBalance < tier.minKarma then (Checked.sub .arith i 1).map some
    else do
      let i ← increment i
      findUnmet karmaBalance i rest

def getTierIdByKarmaBalance (c : Contract A) (karmaBalance : Nat) : Except (Error A) Nat := do
  match ← findUnmet karmaBalance 0 c.tiers with
  | some i => .ok i
  | none => (Checked.sub .arith c.tiers.length 1).map (· % 256)

-- `tier.rs`

inductive TierMatch
  | underLowest
  | aboveHighest
  | matched (tier : Tier)
  deriving DecidableEq

inductive ValidateTierLimitsError
  | invalidMinKarmaAmount
  | invalidMaxKarmaAmount
  | invalidTierLimit
  | nonUniqueTierName
  deriving DecidableEq

structure Context where
  tierNames : List String := []
  prevMin : Option Nat := none
  prevMax : Option Nat := none
  prevTxPerEpoch : Option UInt32 := none

def validateTier (state : Context) (tier : Tier) : Except ValidateTierLimitsError Context := do
  failIf (∃ prevMin ∈ state.prevMin, tier.minKarma ≤ prevMin) .invalidMinKarmaAmount
  failIf (∃ prevMax ∈ state.prevMax, tier.minKarma ≤ prevMax) .invalidMinKarmaAmount
  failIf (tier.maxKarma < tier.minKarma) .invalidMaxKarmaAmount
  failIf (∃ prev ∈ state.prevTxPerEpoch, tier.txPerEpoch ≤ prev) .invalidTierLimit
  failIf (tier.name ∈ state.tierNames) .nonUniqueTierName
  .ok {
    tierNames := tier.name :: state.tierNames
    prevMin := tier.minKarma
    prevMax := tier.maxKarma
    prevTxPerEpoch := tier.txPerEpoch }

def validate (tierLimits : List Tier) : Except ValidateTierLimitsError Unit :=
  (tierLimits.foldlM validateTier {}).map fun _ => ()

def getTierByKarma (karmaAmount : Nat) : List Tier → TierMatch
  | [] => .aboveHighest
  | tier :: rest =>
    if karmaAmount < tier.minKarma then .underLowest
    else if tier.minKarma ≤ karmaAmount ∧ karmaAmount ≤ tier.maxKarma then .matched tier
    else getTierByKarma karmaAmount rest

-- Accepted tables

abbrev Tier.Holds (t : Tier) (karma : Nat) : Prop := t.minKarma ≤ karma ∧ karma ≤ t.maxKarma

/-- The tiers follow each other from 0 on: with all bounds moved up by one, from 1 on. -/
def Contiguous (n : Nat) (tiers : List Tier) : Prop :=
  Tiles (fun t : Tier => t.minKarma + 1) (fun t => t.maxKarma + 1) n tiers

theorem pushTiers_ok (hpush : pushTiers i lastMax tiers input = .ok (ε := Error A) tiers')
    (hfirst : i = 0 → ∀ t ∈ input.head?, t.minKarma = 0) (hi : i ≤ 255) :
    tiers' = tiers ++ input ∧ i + input.length ≤ 255 ∧
      Contiguous (if 0 < i then lastMax + 1 else 0) input := by
  induction input generalizing i lastMax tiers with
  | nil =>
    cases hpush
    exact ⟨by simp, hi, trivial⟩
  | cons t rest ih =>
    simp only [pushTiers, bind_eq_ok, failIf_eq_ok, increment, checkContiguous] at hpush
    obtain ⟨-, -, -, hrange, _, hmin, i', hnext, hpush⟩ := hpush
    by_cases hlt : i < 255
    · cases (if_pos hlt).symm.trans hnext
      obtain ⟨rfl, hlen, hrest⟩ := ih hpush (by omega) hlt
      refine ⟨by simp, by simp; omega, ?_, by simp; omega, hrest⟩
      split
      · rename_i hpos
        simp only [if_pos hpos, bind_eq_ok, Checked.add_eq_ok, failIf_eq_ok] at hmin
        dsimp only
        omega
      · exact congrArg (· + 1) (hfirst (by omega) t rfl)
    · cases (if_neg hlt).symm.trans hnext

theorem updateTiers_ok [DecidableEq A] {c : Contract A}
    (h : updateTiers c sender newTiers = .ok c') :
    c'.tiers.length ≤ 255 ∧ Contiguous 0 c'.tiers := by
  obtain ⟨-, -, h⟩ := bind_eq_ok.mp h
  cases newTiers with
  | nil => cases h
  | cons first rest =>
    simp only [bind_eq_ok, failIf_eq_ok] at h
    obtain ⟨-, hfirst, tiers, hpush, ⟨⟩⟩ := h
    obtain ⟨rfl, hlen, htiles⟩ := pushTiers_ok hpush (by simpa using hfirst) (by omega)
    exact ⟨by simpa using hlen, htiles⟩

-- Lookups

section
variable {pre post : List Tier} {t : Tier}
  (hpre : ∀ u ∈ pre, u.minKarma ≤ karma ∧ u.maxKarma < karma) (hk : t.Holds karma)
include hpre hk

theorem getTierByKarma_append : getTierByKarma karma (pre ++ t :: post) = .matched t := by
  induction pre with
  | nil => exact (if_neg (Nat.not_lt.mpr hk.1)).trans (if_pos hk)
  | cons u pre ih =>
    rw [List.forall_mem_cons] at hpre
    rw [List.cons_append, getTierByKarma, if_neg (by omega), if_neg (by omega), ih hpre.2]

theorem findUnmet_append (hpost : ∀ u ∈ post, karma < u.minKarma)
    (hlen : k + (pre ++ t :: post).length ≤ 255) :
    findUnmet karma k (pre ++ t :: post) =
      .ok (ε := Error A) (if post = [] then none else some (k + pre.length)) := by
  induction pre generalizing k with
  | nil =>
    simp only [List.nil_append, List.length_cons] at hlen ⊢
    rw [findUnmet, if_neg (Nat.not_lt.mpr hk.1), increment, if_pos (by omega), ok_bind]
    cases post with
    | nil => rfl
    | cons u post =>
      rw [findUnmet, if_pos (hpost u List.mem_cons_self)]
      simp [Checked.sub, Except.map]
  | cons u pre ih =>
    rw [List.forall_mem_cons] at hpre
    simp only [List.cons_append, List.length_cons] at hlen ⊢
    rw [findUnmet, if_neg (by omega), increment, if_pos (by omega), ok_bind,
      ih hpre.2 (by omega), Nat.add_right_comm, Nat.add_assoc]

end

theorem mem_of_getTierByKarma (h : getTierByKarma karma tiers = .matched t) :
    t ∈ tiers ∧ t.Holds karma := by
  induction tiers with
  | nil => cases h
  | cons u tiers ih =>
    rw [getTierByKarma] at h
    split at h
    · cases h
    · split at h
      · cases h
        exact ⟨List.mem_cons_self, ‹_›⟩
      · exact (ih h).imp_left (List.mem_cons_of_mem u)

theorem Contiguous.lookups {c : Contract A} {last : Tier} (h : Contiguous 0 c.tiers)
    (hlen : c.tiers.length ≤ 255) (hlast : last ∈ c.tiers.getLast?)
    (hkarma : karma ≤ last.maxKarma) :
    ∃ i t, getTierIdByKarmaBalance c karma = .ok i ∧ c.tiers[i]? = some t ∧
      getTierByKarma karma c.tiers = .matched t ∧ c.tiers.filter (·.Holds karma) = [t] := by
  have hmax := h.hi_le_last (List.mem_of_getLast? hlast)
  obtain ⟨t, ht, hmin, hmax⟩ := h.exists_mem (t := karma + 1) (by omega) (by omega)
  have hk : t.Holds karma := ⟨Nat.le_of_succ_le_succ hmin, Nat.le_of_succ_le_succ hmax⟩
  obtain ⟨pre, post, heq⟩ := List.append_of_mem ht
  rw [getTierIdByKarmaBalance]
  rw [heq] at hlen h ⊢
  have hpre : ∀ u ∈ pre, u.minKarma ≤ karma ∧ u.maxKarma < karma := by
    intro u hu
    have := h.lo_eq
    have := (Tiling.tiles_append.mp h).1.hi_le_last hu
    have := (Tiling.tiles_append.mp h).1.lo_le_hi hu
    omega
  have hpost : ∀ u ∈ post, karma < u.minKarma := by
    intro u hu
    have hlt : t.maxKarma + 1 < u.minKarma + 1 := (Tiling.tiles_append.mp h).2.2.2.lt_lo hu
    omega
  refine ⟨pre.length, t, ?_, by simp, getTierByKarma_append hpre hk, ?_⟩
  · rw [findUnmet_append hpre hk hpost (by omega), ok_bind]
    cases post with
    | nil =>
      simp only [List.length_append, List.length_cons, List.length_nil] at hlen
      simp [Checked.sub, Except.map]
      omega
    | cons u post => simp
  · rw [List.filter_append, List.filter_cons_of_pos (by simpa using hk),
      List.filter_eq_nil_iff.mpr, List.filter_eq_nil_iff.mpr, List.nil_append]
    · intro u hu
      have := hpost u hu
      simp
      omega
    · intro u hu
      have := hpre u hu
      simp
      omega

/-- The prover matches the tier that the contract returns up to the maximum of the last tier, and
only there; up to there, exactly one tier holds the amount. -/
theorem getTierByKarma_agrees [DecidableEq A] {c c' : Contract A} {last : Tier}
    (hupdate : updateTiers c sender newTiers = .ok c') (_ : validate c'.tiers = .ok ())
    (hlast : last ∈ c'.tiers.getLast?) :
    ((∃ i t, getTierIdByKarmaBalance c' karma = .ok i ∧ c'.tiers[i]? = some t ∧
      getTierByKarma karma c'.tiers = .matched t) ↔ karma ≤ last.maxKarma) ∧
    (karma ≤ last.maxKarma → ∃ t, c'.tiers.filter (·.Holds karma) = [t]) := by
  obtain ⟨hlen, h⟩ := updateTiers_ok hupdate
  refine ⟨⟨?_, fun hkarma => ?_⟩, fun hkarma => ?_⟩
  · rintro ⟨-, t, -, -, hmatched⟩
    obtain ⟨ht, hk⟩ := mem_of_getTierByKarma hmatched
    obtain ⟨init, hinit⟩ := List.getLast?_eq_some_iff.mp hlast
    have hle : t.maxKarma + 1 ≤ last.maxKarma + 1 := by simpa [hinit] using h.hi_le_last ht
    exact hk.2.trans (Nat.le_of_succ_le_succ hle)
  · obtain ⟨i, t, hi, hget, hmatched, -⟩ := h.lookups hlen hlast hkarma
    exact ⟨i, t, hi, hget, hmatched⟩
  · obtain ⟨-, t, -, -, -, hfilter⟩ := h.lookups hlen hlast hkarma
    exact ⟨t, hfilter⟩

theorem getTierByKarma_agrees_two :
    let table := [⟨0, 9, "none", 0⟩, ⟨10, 49, "basic", 6⟩]
    (∃ i t, getTierIdByKarmaBalance ⟨"owner", table⟩ 10 = .ok i ∧ table[i]? = some t ∧
      getTierByKarma 10 table = .matched t) ∧ ∃ t, table.filter (·.Holds 10) = [t] := by
  have h := @getTierByKarma_agrees _ "owner" [⟨0, 9, "none", 0⟩, ⟨10, 49, "basic", 6⟩] 10 _
    ⟨"owner", []⟩ ⟨"owner", [⟨0, 9, "none", 0⟩, ⟨10, 49, "basic", 6⟩]⟩ ⟨10, 49, "basic", 6⟩
    (by decide +kernel) (by decide +kernel) rfl
  exact ⟨h.1.mpr (by decide), h.2 (by decide)⟩

/-- Above it the contract still answers the last tier, and the prover none. -/
theorem getTierByKarma_aboveHighest :
    let table := [⟨0, 9, "none", 0⟩, ⟨10, 49, "basic", 6⟩]
    updateTiers ⟨"owner", []⟩ "owner" table = .ok ⟨"owner", table⟩ ∧ validate table = .ok () ∧
      getTierIdByKarmaBalance ⟨"owner", table⟩ 50 = .ok 1 ∧
      getTierByKarma 50 table = .aboveHighest := by
  decide +kernel

end StatusNetwork.KarmaTiers
