import Mathlib.Data.List.Chain
import StatusNetwork.ForcedTransactions.App

/-!
# The invalidity proofs of an aggregation

Models the part of `ProofAggregationCoordinatorService` that collects the invalidity proofs, with
`AggregationL2StateProvider`, `InvalidityProofProvider` and the two queries of
`ForcedTransactionsDao`. A record is requested again when the aggregation before has one block.
-/

namespace StatusNetwork.ForcedTransactions

open Coordinator (BlockInterval blockBefore)

-- The queries

abbrev ForcedTransactionsDao := List ForcedTransactionRecord

namespace ForcedTransactionsDao

variable (dao : ForcedTransactionsDao)

def findHighestForcedTransaction (upToSimulatedExecutionBlockNumberInclusive : Option Nat) :
    Option ForcedTransactionRecord :=
  List.argmax (·.ftxNumber) <| upToSimulatedExecutionBlockNumberInclusive.elim dao fun endBlock =>
    dao.filter (·.simulatedExecutionBlockNumber ≤ endBlock)

def findByStartingNumber
    (ftxStartingNumberInclusive endSimulatedExecutionBlockNumberInclusive : Nat) :
    List ForcedTransactionRecord :=
  dao.filter fun ftx => ftxStartingNumberInclusive ≤ ftx.ftxNumber ∧
    ftx.simulatedExecutionBlockNumber ≤ endSimulatedExecutionBlockNumberInclusive

end ForcedTransactionsDao

structure InvalidityProofIndex where
  ftxNumber : Nat
  simulatedExecutionBlockNumber : Nat
  deriving DecidableEq

def ForcedTransactionRecord.proofIndex (ftx : ForcedTransactionRecord) : InvalidityProofIndex :=
  ⟨ftx.ftxNumber, ftx.simulatedExecutionBlockNumber⟩

-- The request of an aggregation

structure ProofsToAggregate where
  executionProofs : BlockInterval
  invalidityProofs : List InvalidityProofIndex
  parentAggregationLastFtxNumber : Nat
  deriving DecidableEq

variable (dao : ForcedTransactionsDao)

/-- The number of the genesis is 0. -/
def getAggregationFtxRollingInfo (aggEndBlockNumber : Nat) : Nat :=
  if aggEndBlockNumber = 0 then 0
  else ((dao.findHighestForcedTransaction (some (aggEndBlockNumber - 1))).map (·.ftxNumber)).getD 0

def getInvalidityProofs (ftxStartingNumber aggregationStartingBlockNumber : Nat) :
    List InvalidityProofIndex :=
  (dao.findByStartingNumber ftxStartingNumber aggregationStartingBlockNumber).map (·.proofIndex)

def inc (n : Nat) : Nat := (n + 1) % 2 ^ 64

/-- The last block of the parent is a `Long`, which has to be a block number. -/
def aggregationProofCreation (blobsToAggregate : BlockInterval) : Option ProofsToAggregate :=
  let blockNumber := blockBefore blobsToAggregate.startBlockNumber
  if blockNumber < 2 ^ 63 then
    let parentAggregationLastFtxNumber := getAggregationFtxRollingInfo dao blockNumber
    some {
      executionProofs := blobsToAggregate
      invalidityProofs := getInvalidityProofs dao (inc parentAggregationLastFtxNumber)
        blobsToAggregate.startBlockNumber
      parentAggregationLastFtxNumber }
  else none

def Requests (a : BlockInterval) (ftx : ForcedTransactionRecord) : Prop :=
  ∃ proofs ∈ aggregationProofCreation dao a, ftx.proofIndex ∈ proofs.invalidityProofs

instance : Decidable (Requests dao a ftx) :=
  inferInstanceAs (Decidable (∃ proofs ∈ aggregationProofCreation dao a, _))

/-- The records have numbers after the one of the genesis, and no number is the last `ULong`. -/
def Numbered : Prop := ∀ ftx ∈ dao, 0 < ftx.ftxNumber ∧ ftx.ftxNumber + 1 < 2 ^ 64

-- What two aggregations request

variable {dao : ForcedTransactionsDao} {a b : BlockInterval} {aggregations : List BlockInterval}

theorem le_rollingInfo (hmem : ftx ∈ dao) (h : ftx.simulatedExecutionBlockNumber < n) :
    ftx.ftxNumber ≤ getAggregationFtxRollingInfo dao n := by
  have hfound : ftx ∈ dao.filter (·.simulatedExecutionBlockNumber ≤ n - 1) :=
    List.mem_filter.mpr ⟨hmem, by simp; omega⟩
  rw [getAggregationFtxRollingInfo, if_neg (Nat.ne_zero_of_lt h)]
  cases hmax : dao.findHighestForcedTransaction (some (n - 1)) with
  | none =>
    rw [show dao.filter _ = [] from List.argmax_eq_none.mp hmax] at hfound
    cases hfound
  | some highest => exact List.le_of_mem_argmax hfound hmax

theorem rollingInfo_cases (dao : ForcedTransactionsDao) (n : Nat) :
    getAggregationFtxRollingInfo dao n = 0 ∨ ∃ ftx ∈ dao,
      ftx.simulatedExecutionBlockNumber < n ∧
        getAggregationFtxRollingInfo dao n = ftx.ftxNumber := by
  unfold getAggregationFtxRollingInfo
  split_ifs with h0
  · exact .inl rfl
  cases hmax : dao.findHighestForcedTransaction (some (n - 1)) with
  | none => exact .inl rfl
  | some highest =>
    obtain ⟨hmem, hsim⟩ := List.mem_filter.mp (List.argmax_mem hmax)
    exact .inr ⟨highest, hmem, by simp at hsim; omega, rfl⟩

theorem aggregationProofCreation_ok (h : proofs ∈ aggregationProofCreation dao a) :
    let parent := getAggregationFtxRollingInfo dao (blockBefore a.startBlockNumber)
    proofs.parentAggregationLastFtxNumber = parent ∧ proofs.invalidityProofs =
      getInvalidityProofs dao (inc parent) a.startBlockNumber := by
  simp only [aggregationProofCreation, Option.mem_def, Option.ite_none_right_eq_some,] at h
  obtain ⟨-, ⟨⟩⟩ := h
  constructor <;> dsimp only

theorem Requests.exists_record (h : Requests dao a ftx) :
    ∃ r ∈ dao, inc (getAggregationFtxRollingInfo dao (blockBefore a.startBlockNumber)) ≤
        r.ftxNumber ∧ r.simulatedExecutionBlockNumber ≤ a.startBlockNumber ∧
      r.proofIndex = ftx.proofIndex := by
  obtain ⟨proofs, hp, hftx⟩ := h
  rw [(aggregationProofCreation_ok hp).2] at hftx
  obtain ⟨r, hr, he⟩ := List.mem_map.mp hftx
  obtain ⟨hmem, hr⟩ := List.mem_filter.mp hr
  obtain ⟨hnum, hsim⟩ := of_decide_eq_true hr
  exact ⟨r, hmem, hnum, hsim, he⟩

theorem Requests.parent_lt (hdao : Numbered dao) (h : Requests dao a ftx) :
    getAggregationFtxRollingInfo dao (blockBefore a.startBlockNumber) < ftx.ftxNumber := by
  obtain ⟨r, -, hnum, -, he⟩ := h.exists_record
  rw [← show r.ftxNumber = ftx.ftxNumber from congrArg InvalidityProofIndex.ftxNumber he]
  rcases rollingInfo_cases dao (blockBefore a.startBlockNumber) with h | ⟨r', hr', -, h⟩
  · rw [h] at hnum ⊢
    exact hnum
  · rw [h, inc, Nat.mod_eq_of_lt (hdao r' hr').2] at hnum
    rw [h]
    exact hnum

/-- What an aggregation requests is not after the parent of one before which all of it is
simulated. -/
theorem Requests.le_parent (h : Requests dao a ftx)
    (hab : ∀ r ∈ dao, r.simulatedExecutionBlockNumber ≤ a.startBlockNumber →
      r.simulatedExecutionBlockNumber + 2 ≤ b.startBlockNumber) (hb : b.startBlockNumber < 2 ^ 64) :
    ftx.ftxNumber ≤ getAggregationFtxRollingInfo dao (blockBefore b.startBlockNumber) := by
  obtain ⟨r, hr, -, hsim, he⟩ := h.exists_record
  rw [← show r.ftxNumber = ftx.ftxNumber from congrArg InvalidityProofIndex.ftxNumber he]
  have := hab r hr hsim
  refine le_rollingInfo hr ?_
  simp only [blockBefore]
  omega

section
variable (hdao : Numbered dao)
  (hsim : ∀ r ∈ dao, ∀ r' ∈ dao, r.ftxNumber ≤ r'.ftxNumber →
    r.simulatedExecutionBlockNumber ≤ r'.simulatedExecutionBlockNumber)
include hdao hsim

theorem rollingInfo_lt (hftx : ftx ∈ dao) (h : n ≤ ftx.simulatedExecutionBlockNumber) :
    getAggregationFtxRollingInfo dao n < ftx.ftxNumber := by
  rcases rollingInfo_cases dao n with hzero | ⟨r, hr, hlt, hr'⟩
  · rw [hzero]
    exact (hdao ftx hftx).1
  · rw [hr']
    by_contra hle
    have := hsim ftx hftx r hr (not_lt.mp hle)
    omega

theorem requests_first (hstart : 0 < a.startBlockNumber ∧ a.startBlockNumber ≤ 2 ^ 63)
    (hftx : ftx ∈ dao) (h : ftx.simulatedExecutionBlockNumber = a.startBlockNumber) :
    Requests dao a ftx := by
  have hbefore : blockBefore a.startBlockNumber = a.startBlockNumber - 1 := by
    simp only [blockBefore]
    omega
  have hparent := rollingInfo_lt hdao hsim hftx (n := a.startBlockNumber - 1) (by omega)
  rw [Requests, aggregationProofCreation, hbefore, if_pos (by omega)]
  refine ⟨_, rfl, ?_⟩
  refine List.mem_map.mpr ⟨ftx, List.mem_filter.mpr ⟨hftx, decide_eq_true ⟨?_, h.le⟩⟩, rfl⟩
  exact (Nat.mod_le _ _).trans hparent

/-- The records are covered once, unless one is simulated in the block of an aggregation of one
block that another one follows. -/
theorem invalidityProofs_requestedOnce
    (hblocks : ∀ a ∈ aggregations, 0 < a.startBlockNumber ∧ a.startBlockNumber ≤ 2 ^ 63)
    (hchain : aggregations.IsChain fun a b : BlockInterval =>
      a.startBlockNumber ≤ a.endBlockNumber ∧ b.startBlockNumber = a.endBlockNumber + 1) :
    (aggregations.Pairwise (fun a b => ∀ ftx, Requests dao a ftx → ¬ Requests dao b ftx ∧
      ∀ proofs ∈ aggregationProofCreation dao b,
        ftx.ftxNumber ≤ proofs.parentAggregationLastFtxNumber) ↔
      aggregations.IsChain fun a _ : BlockInterval => a.startBlockNumber = a.endBlockNumber →
        ∀ r ∈ dao, r.simulatedExecutionBlockNumber ≠ a.startBlockNumber) ∧
    ∀ a ∈ aggregations, ∀ ftx ∈ dao, ftx.inclusionResult ≠ .included →
      ftx.simulatedExecutionBlockNumber = a.startBlockNumber → Requests dao a ftx := by
  rw [List.isChain_iff_forall_rel_of_append_cons_cons] at hchain
  refine ⟨⟨fun honce => ?_, fun halone => ?_⟩, fun a ha ftx hftx _ =>
    requests_first hdao hsim (hblocks a ha) hftx⟩
  · rw [List.isChain_iff_forall_rel_of_append_cons_cons]
    rintro a b pre post rfl hone r hr hstart
    obtain ⟨-, hb⟩ := hchain rfl
    have ha := hblocks a (by simp)
    have hblock := hblocks b (by simp)
    have hbefore : blockBefore b.startBlockNumber = a.startBlockNumber := by
      simp only [blockBefore]
      omega
    have hreq : Requests dao a r := requests_first hdao hsim ha hr hstart
    -- the parent of the next aggregation is before the record that this one requests
    have hlt := rollingInfo_lt hdao hsim hr hstart.ge
    obtain ⟨-, hle⟩ := (List.pairwise_cons.mp (List.pairwise_append.mp honce).2.1).1 b (by simp) r
      hreq
    rw [aggregationProofCreation, hbefore, if_pos (by omega)] at hle
    exact absurd (hle _ rfl) hlt.not_ge
  · rw [List.isChain_iff_forall_rel_of_append_cons_cons] at halone
    let after (a b : BlockInterval) : Prop := a.startBlockNumber < b.startBlockNumber ∧
      ∀ r ∈ dao, r.simulatedExecutionBlockNumber ≤ a.startBlockNumber →
        r.simulatedExecutionBlockNumber + 2 ≤ b.startBlockNumber
    have htrans : IsTrans _ after := ⟨fun a b c hab hbc =>
      ⟨hab.1.trans hbc.1, fun r hr hle => hbc.2 r hr (hle.trans hab.1.le)⟩⟩
    have hafter : aggregations.IsChain after := by
      rw [List.isChain_iff_forall_rel_of_append_cons_cons]
      intro a b pre post heq
      obtain ⟨hle, hb⟩ := hchain heq
      refine ⟨by omega, fun r hr hsim => ?_⟩
      by_cases hone : a.startBlockNumber = a.endBlockNumber
      · have := halone heq hone r hr
        omega
      · omega
    refine hafter.pairwise.imp_of_mem fun {a b} _ hb hab ftx h => ?_
    have hle := h.le_parent hab.2 (by have := hblocks b hb; omega)
    refine ⟨fun h' => absurd (h'.parent_lt hdao) hle.not_gt, fun proofs hp => ?_⟩
    rw [(aggregationProofCreation_ok hp).1]
    exact hle

end

/-- The second aggregation has one block, in which nothing is simulated. -/
theorem invalidityProofs_requestedOnce_two :
    Requests [⟨1, .badNonce, 1⟩] ⟨1, 2⟩ ⟨1, .badNonce, 1⟩ ∧
      ∀ b ∈ [⟨3, 3⟩, ⟨4, 5⟩], ¬ Requests [⟨1, .badNonce, 1⟩] b ⟨1, .badNonce, 1⟩ := by
  have h := @invalidityProofs_requestedOnce [⟨1, .badNonce, 1⟩] [⟨1, 2⟩, ⟨3, 3⟩, ⟨4, 5⟩]
    (by simp [Numbered]) (by simp) (by simp) (by simp)
  have hfirst := h.2 _ List.mem_cons_self _ List.mem_cons_self (by decide) rfl
  have honce := h.1.mpr (by simp)
  exact ⟨hfirst, fun b hb => ((List.pairwise_cons.mp honce).1 b hb _ hfirst).1⟩

/-- After an aggregation of one block the record is requested again. -/
theorem invalidityProofs_requestedTwice :
    let dao := [⟨1, .badNonce, 1⟩]
    [(⟨1, 1⟩ : BlockInterval), ⟨2, 5⟩].IsChain
        (fun a b => b.startBlockNumber = a.endBlockNumber + 1) ∧
      Requests dao ⟨1, 1⟩ ⟨1, .badNonce, 1⟩ ∧ Requests dao ⟨2, 5⟩ ⟨1, .badNonce, 1⟩ ∧
      (aggregationProofCreation dao ⟨2, 5⟩).map (·.parentAggregationLastFtxNumber) = some 0 := by
  decide

end StatusNetwork.ForcedTransactions
