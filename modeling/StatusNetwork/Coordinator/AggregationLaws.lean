import Mathlib.Data.List.Induction
import Mathlib.Data.List.ReduceOption
import StatusNetwork.Base.Tiling
import StatusNetwork.Coordinator.Aggregation

/-!
# What the aggregation calculator does with a blob

The aggregations in flight of all calculators are determined by the pending blobs (`Synced`). From
this follows which triggers a blob can set off (`checkAggregationTriggers_ok`) and which blobs are
then handed out (`handOut_ok`).
-/

namespace StatusNetwork.Coordinator.Aggregation

open Tiling (last)

abbrev Tiles : Nat → List BlobCounters → Prop :=
  Tiling.Tiles BlobCounters.startBlockNumber BlobCounters.endBlockNumber

abbrev lastBlock : Nat → List BlobCounters → Nat := last BlobCounters.endBlockNumber

def proofs (blobs : List BlobCounters) : Nat := (blobs.map (·.numberOfBatches + 1)).sum

def inFlight (blobs : List BlobCounters) : Option BlobsToAggregate :=
  blobs.foldl (fun aggregation blob => some (extend aggregation blob)) none

@[simp] theorem proofs_nil : proofs [] = 0 := rfl

@[simp] theorem proofs_append : proofs (l ++ m) = proofs l + proofs m := by
  simp [proofs]

@[simp] theorem proofs_singleton : proofs [b] = b.numberOfBatches + 1 := by
  simp [proofs]

@[simp] theorem inFlight_nil : inFlight [] = none := rfl

@[simp] theorem inFlight_concat : inFlight (l ++ [b]) = some (extend (inFlight l) b) := by
  simp [inFlight]

theorem inFlight_eq (h : Tiles n l) (hne : l ≠ []) : inFlight l = some ⟨n + 1, lastBlock n l⟩ := by
  induction l using List.reverseRecOn with
  | nil => exact absurd rfl hne
  | append_singleton l b ih =>
    rw [inFlight_concat]
    by_cases hl : l = []
    · subst hl
      simp [extend, h.1]
    · rw [ih (Tiling.tiles_append.mp h).1 hl]
      simp [extend]

theorem extend_inFlight (h : Tiles n (l ++ [b])) :
    extend (inFlight l) b = ⟨n + 1, lastBlock n (l ++ [b])⟩ :=
  Option.some.inj (inFlight_concat.symm.trans (inFlight_eq h (by simp)))

theorem getD_inFlight (h : l = [] → k = 0) : ((inFlight l).map fun _ => k).getD 0 = k := by
  obtain rfl | ⟨l, b, rfl⟩ := List.eq_nil_or_concat l
  · exact (h rfl).symm
  · simp

/-- The limits do not make the sums of `UInt`s wrap around, and are not zero. -/
structure Config.Ok (config : Config) : Prop where
  maxProofs : 2 * config.maxProofsPerAggregation ≤ 2 ^ 32
  maxBlobs : ∀ n ∈ config.maxBlobsPerAggregation, 1 ≤ n ∧ n < 2 ^ 32
  multipleOf : 1 ≤ config.aggregationSizeMultipleOf

/-- Where forced transactions ask for the end of an aggregation, those included that arrive during
a call. -/
def State.ftxBlocks (s : State) : List Nat :=
  s.pendingTriggerBlocks ++ triggerBlocks (s.processedFtxQueue ++ s.arriving.flatten)

@[simp] theorem ftxBlocks_consumeProcessedFtxs (s : State) :
    (consumeProcessedFtxs s).ftxBlocks = s.ftxBlocks := by
  cases h : s.arriving <;> simp [State.ftxBlocks, consumeProcessedFtxs, triggerBlocks, h]

/-- The calculators have the blobs in flight, which are not too many. -/
structure Synced (config : Config) (s : State) (blobs : List BlobCounters) : Prop where
  forcedTransaction : s.forcedTransaction = inFlight blobs
  targetBlockNumbers : s.targetBlockNumbers = inFlight blobs
  proofLimit : s.proofLimit = (inFlight blobs).map (⟨proofs blobs, ·⟩)
  blobLimit : ∀ n ∈ config.maxBlobsPerAggregation,
    s.blobLimit = (inFlight blobs).map (⟨blobs.length, ·⟩)
  timestampHardFork : s.timestampHardFork.inFlightAggregation = inFlight blobs
  deadline : s.deadline = inFlight blobs
  fewProofs : blobs ≠ [] → proofs blobs < config.maxProofsPerAggregation
  fewBlobs : ∀ n ∈ config.maxBlobsPerAggregation, blobs.length < n

theorem Synced.frame (h : Synced config s blobs) (pendingBlobs : List BlobCounters)
    (queue : List ForcedTransactionInclusionStatus)
    (arriving : List (List ForcedTransactionInclusionStatus)) (blocks : List Nat) :
    Synced config { s with
      pendingBlobs := pendingBlobs, processedFtxQueue := queue, arriving := arriving
      pendingTriggerBlocks := blocks } blobs :=
  { h with }

-- The triggers

section
variable {config : Config} {s : State} {pending : List BlobCounters} {blob : BlobCounters} {n : Nat}

theorem countProofs_eq (hfit : blob.numberOfBatches + 1 ≤ m) (hmax : 2 * m ≤ 2 ^ 32) :
    ProofLimit.countProofs blob = blob.numberOfBatches + 1 :=
  uint_eq (by omega)

/-- The trigger by proof limit, in terms of the blobs in flight. -/
def proofLimitTrigger (config : Config) (n : Nat) (pending : List BlobCounters)
    (blob : BlobCounters) : Option AggregationTrigger :=
  if config.maxProofsPerAggregation < proofs (pending ++ [blob]) then
    some ⟨.proofLimit, ⟨n + 1, lastBlock n pending⟩⟩
  else if proofs (pending ++ [blob]) = config.maxProofsPerAggregation then
    some ⟨.proofLimit, ⟨n + 1, lastBlock n (pending ++ [blob])⟩⟩
  else none

/-- The trigger by blob limit. -/
def blobLimitTrigger (config : Config) (n : Nat) (pending : List BlobCounters)
    (blob : BlobCounters) : Option AggregationTrigger :=
  if ∀ m ∈ config.maxBlobsPerAggregation, pending.length + 1 < m then none
  else some ⟨.blobLimit, ⟨n + 1, lastBlock n (pending ++ [blob])⟩⟩

theorem checkProofLimit_ok (hc : config.Ok) (h : Synced config s pending)
    (htiles : Tiles n (pending ++ [blob]))
    (hfit : blob.numberOfBatches + 1 ≤ config.maxProofsPerAggregation) :
    ProofLimit.checkAggregationTrigger config.maxProofsPerAggregation s.proofLimit blob =
      .ok (proofLimitTrigger config n pending blob) := by
  have hcount := countProofs_eq hfit hc.maxProofs
  rw [ProofLimit.checkAggregationTrigger.eq_def, hcount, failIf_neg (Nat.not_lt.mpr hfit),
    h.proofLimit, proofLimitTrigger, proofs_append, proofs_singleton]
  by_cases hne : pending = []
  · subst hne
    have hle : ¬ config.maxProofsPerAggregation < blob.numberOfBatches + 1 := by omega
    have hext := extend_inFlight htiles
    simp only [inFlight_nil] at hext
    simp only [inFlight_nil, Option.map_none, proofs_nil, Nat.zero_add, hle, if_false, hext]
    split <;> rfl
  · have hfew := h.fewProofs hne
    have hmax := hc.maxProofs
    have hext := extend_inFlight htiles
    rw [inFlight_eq (Tiling.tiles_append.mp htiles).1 hne] at hext ⊢
    simp only [Option.map_some, uint_eq (show proofs pending + (blob.numberOfBatches + 1) < 2 ^ 32
      by omega), gt_iff_lt, hext]
    split
    · rfl
    · split <;> rfl

theorem checkTarget_some
    (h : TargetBlockNumbers.checkAggregationTrigger type targets current blob = some t) :
    t = ⟨type, extend current blob⟩ ∧ blob.endBlockNumber ∈ targets := by
  unfold TargetBlockNumbers.checkAggregationTrigger at h
  split at h
  · cases h
  · split at h
    · cases h
    · split at h
      · cases h
      · split at h
        · rename_i hend
          exact ⟨(Option.some.inj h).symm, hend⟩
        · cases h

theorem checkForcedTransaction_eq (s : State) (blob : BlobCounters) : ∃ queue arriving blocks,
    (checkForcedTransaction s blob).1 = { s with
      processedFtxQueue := queue, arriving := arriving, pendingTriggerBlocks := blocks } ∧
    (checkForcedTransaction s blob).1.ftxBlocks ⊆ s.ftxBlocks ∧
    ∀ t ∈ (checkForcedTransaction s blob).2,
      t = ⟨.forcedTransaction, extend s.forcedTransaction blob⟩ ∧
        blob.endBlockNumber ∈ s.ftxBlocks := by
  have hsame := ftxBlocks_consumeProcessedFtxs s
  simp only [checkForcedTransaction]
  split
  · rename_i t ht
    refine ⟨_, _, _, rfl, ?_, ?_⟩
    · rw [← hsame]
      intro n hn
      obtain hn | hn := List.mem_append.mp hn
      · exact List.mem_append_left _ (List.mem_of_mem_filter hn)
      · exact List.mem_append_right _ hn
    · rintro _ ⟨⟩
      obtain ⟨rfl, hend⟩ := checkTarget_some ht
      exact ⟨rfl, hsame ▸ List.mem_append_left _ hend⟩
  · refine ⟨_, _, _, rfl, hsame ▸ List.Subset.refl _, ?_⟩
    rintro _ ⟨⟩

theorem blobLimit_eq (h : Synced config s pending) (hm : m ∈ config.maxBlobsPerAggregation)
    (hlt : m < 2 ^ 32) : BlobLimit.blobCount s.blobLimit = pending.length + 1 ∧
      s.blobLimit.map (·.blobsToAggregate) = inFlight pending := by
  have hfew := h.fewBlobs m hm
  rw [BlobLimit.blobCount, h.blobLimit m hm, Option.map_map, Option.map_map]
  refine ⟨?_, Option.map_id_apply⟩
  have hcount : ((inFlight pending).map fun _ => pending.length).getD 0 = pending.length :=
    getD_inFlight fun hnil => by rw [hnil, List.length_nil]
  exact (congrArg (fun k => uint (k + 1)) hcount).trans (uint_eq (by omega))

theorem checkBlobLimit_eq (hc : config.Ok) (h : Synced config s pending)
    (htiles : Tiles n (pending ++ [blob])) :
    (config.maxBlobsPerAggregation.bind fun max =>
      BlobLimit.checkAggregationTrigger max s.blobLimit blob) =
      blobLimitTrigger config n pending blob := by
  rw [blobLimitTrigger]
  cases hmax : config.maxBlobsPerAggregation with
  | none => simp
  | some max =>
    obtain ⟨hcount, hstart⟩ := blobLimit_eq h hmax (hc.maxBlobs max hmax).2
    simp only [Option.bind_some, BlobLimit.checkAggregationTrigger,
      BlobLimit.willReachBlobLimitWithOneMoreBlob, hcount, hstart, extend_inFlight htiles]
    by_cases hle : max ≤ pending.length + 1
    · simp [hle, Nat.not_lt.mpr hle]
    · simp [hle, Nat.not_le.mp hle]

theorem checkHardFork_some {s : TimestampHardFork.State}
    (hs : s.inFlightAggregation = inFlight pending) (htiles : Tiles n pending)
    (h : TimestampHardFork.checkAggregationTrigger forks s blob = some t) :
    pending ≠ [] ∧ t = ⟨.hardFork, ⟨n + 1, lastBlock n pending⟩⟩ := by
  simp only [TimestampHardFork.checkAggregationTrigger] at h
  split at h
  · rename_i current _ hcurrent
    cases h
    have hne : pending ≠ [] := by
      rintro rfl
      simp [hs] at hcurrent
    rw [hs, inFlight_eq htiles hne] at hcurrent
    cases hcurrent
    exact ⟨hne, rfl⟩
  · cases h

/-- What the triggers of a blob are about. The first one covers the first pending blobs, with the
blob itself or without; these have too many proofs only if a forced transaction asks for it. -/
def Triggered (config : Config) (s : State) (n : Nat) (pending : List BlobCounters)
    (blob : BlobCounters) : List AggregationTrigger → Prop
  | [] => proofs (pending ++ [blob]) < config.maxProofsPerAggregation ∧
    ∀ m ∈ config.maxBlobsPerAggregation, pending.length + 1 < m
  | t :: _ => ∃ l₁ l₂, pending ++ [blob] = l₁ ++ l₂ ∧ l₁ ≠ [] ∧
    t.aggregation = ⟨n + 1, lastBlock n l₁⟩ ∧
    (∀ m ∈ config.maxBlobsPerAggregation, l₁.length ≤ m) ∧
    (proofs l₁ ≤ config.maxProofsPerAggregation ∨ blob.endBlockNumber ∈ s.ftxBlocks)

section
variable (hc : config.Ok) (h : Synced config s pending) (htiles : Tiles n (pending ++ [blob]))
  (hfit : blob.numberOfBatches + 1 ≤ config.maxProofsPerAggregation)
include hc h htiles hfit

omit hc htiles in
theorem triggered_reduceOption
    (hforced : ∀ t ∈ forced, t.aggregation = ⟨n + 1, lastBlock n (pending ++ [blob])⟩ ∧
      blob.endBlockNumber ∈ s.ftxBlocks)
    (htarget : ∀ t ∈ target, t.aggregation = ⟨n + 1, lastBlock n (pending ++ [blob])⟩)
    (hfork : ∀ t ∈ hardFork, pending ≠ [] ∧ t.aggregation = ⟨n + 1, lastBlock n pending⟩) :
    Triggered config s n pending blob [forced, proofLimitTrigger config n pending blob, target,
      blobLimitTrigger config n pending blob, hardFork].reduceOption := by
  have hwhole : ∀ m ∈ config.maxBlobsPerAggregation, (pending ++ [blob]).length ≤ m := by
    intro m hm
    simpa [Nat.succ_le_iff] using h.fewBlobs m hm
  have hpart : ∀ m ∈ config.maxBlobsPerAggregation, pending.length ≤ m := fun m hm =>
    Nat.le_of_lt (h.fewBlobs m hm)
  -- a trigger that covers all pending blobs, when there is no trigger by proof limit before it
  have hall {t rest} (ht : t.aggregation = ⟨n + 1, lastBlock n (pending ++ [blob])⟩)
      (hp : proofs (pending ++ [blob]) ≤ config.maxProofsPerAggregation) :
      Triggered config s n pending blob (t :: rest) :=
    ⟨_, [], (List.append_nil _).symm, by simp, ht, hwhole, .inl hp⟩
  cases forced with
  | some t =>
    obtain ⟨ht, hend⟩ := hforced t rfl
    exact ⟨_, [], (List.append_nil _).symm, by simp, ht, hwhole, .inr hend⟩
  | none =>
    rw [proofLimitTrigger]
    split
    · -- the trigger by proof limit leaves the blob out
      rename_i hp
      have hne : pending ≠ [] := by
        rintro rfl
        simp only [List.nil_append, proofs_singleton] at hp
        omega
      exact ⟨pending, [blob], rfl, hne, rfl, hpart, .inl (Nat.le_of_lt (h.fewProofs hne))⟩
    · rename_i hp
      have hp := Nat.not_lt.mp hp
      split
      · exact hall rfl hp
      · rename_i hne
        cases target with
        | some t => exact hall (htarget t rfl) hp
        | none =>
          rw [blobLimitTrigger]
          split
          · rename_i hfew
            cases hardFork with
            | some t =>
              obtain ⟨hpending, ht⟩ := hfork t rfl
              exact ⟨pending, [blob], rfl, hpending, ht, hpart,
                .inl (Nat.le_of_lt (h.fewProofs hpending))⟩
            | none => exact ⟨Nat.lt_of_le_of_ne hp hne, hfew⟩
          · exact hall rfl hp

/-- The triggers of a blob, as the calculators answer when their aggregations in flight are the
pending blobs. -/
theorem checkAggregationTriggers_eq :
    checkAggregationTriggers config s blob = .ok ((checkForcedTransaction s blob).1,
      [(checkForcedTransaction s blob).2, proofLimitTrigger config n pending blob,
        TargetBlockNumbers.checkAggregationTrigger .targetBlockNumber s.targetEndBlockNumbers
          s.targetBlockNumbers blob,
        blobLimitTrigger config n pending blob,
        TimestampHardFork.checkAggregationTrigger config.hardForkTimestamps s.timestampHardFork
          blob].reduceOption) := by
  obtain ⟨queue, arriving, blocks, hs, -⟩ := checkForcedTransaction_eq s blob
  simp only [checkAggregationTriggers, hs, checkProofLimit_ok hc h htiles hfit,
    checkBlobLimit_eq hc h htiles, ok_bind]

theorem checkAggregationTriggers_ok :
    ∃ queue arriving blocks triggers, checkAggregationTriggers config s blob = .ok ({ s with
        processedFtxQueue := queue, arriving := arriving, pendingTriggerBlocks := blocks },
        triggers) ∧ Triggered config s n pending blob triggers ∧ { s with
          processedFtxQueue := queue, arriving := arriving
          pendingTriggerBlocks := blocks }.ftxBlocks ⊆ s.ftxBlocks := by
  obtain ⟨queue, arriving, blocks, hs, hsub, hforced⟩ := checkForcedTransaction_eq s blob
  have hext := extend_inFlight htiles
  have heq := checkAggregationTriggers_eq hc h htiles hfit
  rw [hs] at heq hsub
  refine ⟨queue, arriving, blocks, _, heq, triggered_reduceOption h hfit ?_ ?_ ?_, hsub⟩
  · intro t ht
    obtain ⟨rfl, hend⟩ := hforced t ht
    rw [h.forcedTransaction, hext]
    exact ⟨rfl, hend⟩
  · intro t ht
    rw [(checkTarget_some ht).1, h.targetBlockNumbers, hext]
  · intro t ht
    obtain ⟨hne, rfl⟩ :=
      checkHardFork_some h.timestampHardFork (Tiling.tiles_append.mp htiles).1 ht
    exact ⟨hne, rfl⟩

omit htiles in
theorem addToCalculators_ok
    (hproofs : proofs (pending ++ [blob]) < config.maxProofsPerAggregation)
    (hblobs : ∀ m ∈ config.maxBlobsPerAggregation, pending.length + 1 < m) :
    ∃ proofLimit blobLimit, addToCalculators config s blob = .ok { s with
      forcedTransaction := some (extend s.forcedTransaction blob)
      proofLimit := proofLimit
      targetBlockNumbers := some (extend s.targetBlockNumbers blob)
      blobLimit := blobLimit
      timestampHardFork := s.timestampHardFork.newBlob blob
      deadline := some (extend s.deadline blob) } ∧
    proofLimit = some ⟨proofs (pending ++ [blob]), extend (inFlight pending) blob⟩ ∧
    ∀ m ∈ config.maxBlobsPerAggregation,
      blobLimit = some ⟨pending.length + 1, extend (inFlight pending) blob⟩ := by
  have hmax := hc.maxProofs
  have hcount : ((inFlight pending).map fun _ => proofs pending).getD 0 = proofs pending :=
    getD_inFlight fun hnil => by rw [hnil, proofs_nil]
  have hsum : uint ((s.proofLimit.map (·.proofsCount)).getD 0 + ProofLimit.countProofs blob) =
      proofs (pending ++ [blob]) := by
    rw [h.proofLimit, Option.map_map, countProofs_eq hfit hmax, proofs_append]
    refine (congrArg (fun k => uint (k + (blob.numberOfBatches + 1))) hcount).trans (uint_eq ?_)
    simp only [proofs_append, proofs_singleton] at hproofs
    omega
  have hstart : s.proofLimit.map (·.blobsToAggregate) = inFlight pending := by
    rw [h.proofLimit, Option.map_map]
    exact Option.map_id_apply
  have hnew : ProofLimit.newBlob config.maxProofsPerAggregation s.proofLimit blob =
      .ok (some ⟨proofs (pending ++ [blob]), extend (inFlight pending) blob⟩) := by
    have hpass : ¬ ProofLimit.countProofs blob > config.maxProofsPerAggregation := by
      rw [countProofs_eq hfit hmax]
      exact Nat.not_lt.mpr hfit
    simp only [ProofLimit.newBlob, hsum, hstart, failIf_neg hpass,
      failIf_neg (Nat.lt_asymm hproofs), ok_bind]
  cases hm : config.maxBlobsPerAggregation with
  | none =>
    refine ⟨_, s.blobLimit, ?_, rfl, by simp⟩
    simp only [addToCalculators, hnew, hm, ok_bind]
  | some m =>
    obtain ⟨hcount, hstart⟩ := blobLimit_eq h hm (hc.maxBlobs m hm).2
    have hfew : ¬ BlobLimit.willReachBlobLimitWithOneMoreBlob m s.blobLimit := by
      rw [BlobLimit.willReachBlobLimitWithOneMoreBlob, hcount]
      exact Nat.not_le.mpr (hblobs m hm)
    refine ⟨_, _, ?_, rfl, fun _ _ => rfl⟩
    simp only [addToCalculators, hnew, hm, BlobLimit.newBlob, failIf_neg hfew, hcount,
      hstart, ok_bind]

end

theorem getUpdatedAggregationSize_ok (hmult : 1 ≤ multipleOf) (hsize : 1 ≤ size) :
    ∃ k, getUpdatedAggregationSize size multipleOf = .ok k ∧ 1 ≤ k ∧ k ≤ size ∧
      (k ≤ multipleOf ∨ multipleOf ∣ k) := by
  unfold getUpdatedAggregationSize
  split
  · have hmod := Nat.mod_lt size hmult
    refine ⟨_, if_neg (by omega), by omega, Nat.sub_le _ _, .inr ?_⟩
    exact Nat.dvd_sub_mod size
  · rename_i hle
    exact ⟨size, rfl, hsize, Nat.le_refl _, .inl (Nat.not_lt.mp hle)⟩

/-- A trigger about the first pending blobs hands some of them out. -/
theorem handOut_ok (hc : config.Ok) (hs : s.pendingBlobs = l₁ ++ l₂) (htiles : Tiles n (l₁ ++ l₂))
    (hne : l₁ ≠ []) (ht : t.aggregation = ⟨n + 1, lastBlock n l₁⟩) :
    ∃ m₁ m₂, l₁ = m₁ ++ m₂ ∧ m₁ ≠ [] ∧
      (m₁.length ≤ config.aggregationSizeMultipleOf ∨
        config.aggregationSizeMultipleOf ∣ m₁.length) ∧
      handOut config s t =
        .ok (onAggregation s ⟨⟨n + 1, lastBlock n m₁⟩, m₁⟩, m₂ ++ l₂) ∧
      (m₁.head?.map (·.startBlockNumber) = some (n + 1) ∧
        m₁.getLast?.map (·.endBlockNumber) = some (lastBlock n m₁)) := by
  obtain ⟨k, hk, hpos, hle, hmult⟩ :=
    getUpdatedAggregationSize_ok hc.multipleOf (List.length_pos_of_ne_nil hne)
  have hlen : (l₁.take k).length = k := by simpa using hle
  have htake : l₁.take k ≠ [] := List.ne_nil_of_length_pos (by omega)
  have hsplit : Tiles n (l₁.take k ++ (l₁.drop k ++ l₂)) := by
    simpa [← List.append_assoc] using htiles
  obtain ⟨hin, hrest⟩ := Tiling.tiles_append.mp hsplit
  obtain ⟨first, hfirst, hlo⟩ := hin.head?_eq htake
  obtain ⟨last, hlast, hhi⟩ : ∃ b, (l₁.take k).getLast? = some b ∧
      b.endBlockNumber = lastBlock n (l₁.take k) := Tiling.getLast?_eq htake
  obtain ⟨first₁, hfirst₁, hlo₁⟩ := (Tiling.tiles_append.mp htiles).1.head?_eq hne
  obtain ⟨last₁, hlast₁, hhi₁⟩ : ∃ b, l₁.getLast? = some b ∧
      b.endBlockNumber = lastBlock n l₁ := Tiling.getLast?_eq hne
  have hpass : ¬ (l₁ ++ l₂ = [] ∨ (∀ blob ∈ l₁ ++ l₂, blob.startBlockNumber ≠ n + 1) ∨
      ∀ blob ∈ l₁ ++ l₂, blob.endBlockNumber ≠ lastBlock n l₁) := by
    rintro (hnil | hstart | hend)
    · simp [hne] at hnil
    · exact hstart first₁ (List.mem_append_left _ (List.mem_of_head? hfirst₁)) hlo₁
    · exact hend last₁ (List.mem_append_left _ (List.mem_of_getLast? hlast₁)) hhi₁
  obtain ⟨htw, hdw⟩ := htiles.takeWhile_within
  refine ⟨l₁.take k, l₁.drop k, (List.take_append_drop k l₁).symm, htake, by rwa [hlen], ?_,
    by simp [hfirst, hlo], by simp [hlast, hhi]⟩
  simp only [handOut, ht, hs, failIf_neg hpass, htw, hdw, hk, hfirst, hlast, ok_bind,
    hrest.insertionSort_eq, hlo, hhi]

end

end StatusNetwork.Coordinator.Aggregation
