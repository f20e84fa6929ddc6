import StatusNetwork.Coordinator.AggregationLaws

/-!
# Aggregations partition the blobs

Whatever the triggers and in whatever order deadlines are handled, the aggregations that are handed
out and the pending blobs are the accepted blobs, in order; reprocessing ends. The limits on blobs
and the multiple always hold. An aggregation may have up to twice as many proofs as it should, when
a forced transaction asks for it to end with a blob that is too much.
-/

namespace StatusNetwork.Coordinator.Aggregation

def State.aggregated (s : State) : List BlobCounters := s.aggregations.flatMap (·.blobs)

@[simp] theorem aggregated_onAggregation (s : State) (a : HandedOut) :
    (onAggregation s a).aggregated = s.aggregated ++ a.blobs := by
  simp [State.aggregated, onAggregation]

/-- No forced transaction asks for an aggregation to end with a blob that makes the proofs more than
the bound. -/
def State.NoExcess (s : State) (bound : Nat) (blobs : List BlobCounters) : Prop :=
  ∀ l b r, blobs = l ++ b :: r → bound < proofs (l ++ [b]) → b.endBlockNumber ∉ s.ftxBlocks

section
variable {s s' : State}

theorem State.NoExcess.of_le (h : proofs blobs ≤ bound) : s.NoExcess bound blobs := by
  rintro l b r rfl hlt
  simp only [← List.singleton_append (l := r), proofs_append] at h hlt
  omega

theorem State.NoExcess.concat (h : proofs blobs ≤ bound)
    (hb : bound < proofs (blobs ++ [b]) → b.endBlockNumber ∉ s.ftxBlocks) :
    s.NoExcess bound (blobs ++ [b]) := by
  intro l c r heq
  obtain rfl | ⟨r, d, rfl⟩ := List.eq_nil_or_concat r
  · obtain ⟨rfl, hc⟩ := List.append_inj' heq rfl
    cases hc
    exact hb
  · rw [List.concat_eq_append, ← List.cons_append, ← List.append_assoc] at heq
    exact of_le h l c r (List.append_inj' heq rfl).1

theorem State.NoExcess.suffix (h : s.NoExcess bound (m ++ blobs))
    (hsub : s'.ftxBlocks ⊆ s.ftxBlocks) : s'.NoExcess bound blobs := by
  rintro l b r rfl hlt hend
  refine h (m ++ l) b r (List.append_assoc m l _).symm ?_ (hsub hend)
  simp only [proofs_append] at hlt ⊢
  omega

end

structure HandedOut.Within (config : Config) (bound : Nat) (a : HandedOut) : Prop where
  first : a.blobs.head?.map (·.startBlockNumber) = some a.blobsToAggregate.startBlockNumber
  last : a.blobs.getLast?.map (·.endBlockNumber) = some a.blobsToAggregate.endBlockNumber
  maxProofs : proofs a.blobs ≤ bound
  maxBlobs : ∀ m ∈ config.maxBlobsPerAggregation, a.blobs.length ≤ m
  multipleOf : a.blobs.length ≤ config.aggregationSizeMultipleOf ∨
    config.aggregationSizeMultipleOf ∣ a.blobs.length

/-- All blobs after block `first` that were accepted are handed out, pending or waiting to be
processed. -/
structure Books (config : Config) (bound first : Nat) (s : State) (waiting : List BlobCounters) :
    Prop where
  cover : s.aggregated ++ (s.pendingBlobs ++ waiting) = s.accepted
  tiles : Tiles first s.accepted
  lastBlockNumber : s.lastBlockNumber = lastBlock first s.accepted
  fits : ∀ b ∈ s.accepted, b.numberOfBatches + 1 ≤ config.maxProofsPerAggregation
  intervals : Tiling.Tiles BlockInterval.startBlockNumber BlockInterval.endBlockNumber first
    (s.aggregations.map (·.blobsToAggregate))
  ends : Tiling.last BlockInterval.endBlockNumber first (s.aggregations.map (·.blobsToAggregate)) =
    lastBlock first s.aggregated
  bound_ge : config.maxProofsPerAggregation ≤ bound
  within : ∀ a ∈ s.aggregations, a.Within config bound
  noExcess : s.NoExcess bound (s.pendingBlobs ++ waiting)
  /-- No deadline trigger is about blobs that do not follow those handed out. -/
  triggers : ∀ t ∈ s.deadlineTriggers,
    t.aggregation.startBlockNumber ≤ lastBlock first s.aggregated + 1

/-- Between calls, and whenever the next blob is processed. -/
structure Good (config : Config) (bound first : Nat) (s : State) (waiting : List BlobCounters) :
    Prop extends Books config bound first s waiting where
  synced : Synced config s s.pendingBlobs

section
variable {config : Config} {bound first : Nat} {s : State}

theorem Books.pending_tiles (h : Books config bound first s waiting) :
    Tiles (lastBlock first s.aggregated) (s.pendingBlobs ++ waiting) := by
  have := h.tiles
  rw [← h.cover] at this
  exact (Tiling.tiles_append.mp this).2

theorem Books.fits_of_mem (h : Books config bound first s waiting)
    (hb : b ∈ s.pendingBlobs ++ waiting) :
    b.numberOfBatches + 1 ≤ config.maxProofsPerAggregation := by
  refine h.fits b ?_
  rw [← h.cover]
  exact List.mem_append_right _ hb

/-- The next blob follows on the pending ones and fits an aggregation. -/
theorem Books.next (h : Books config bound first s (blob :: waiting)) :
    Tiles (lastBlock first s.aggregated) (s.pendingBlobs ++ [blob]) ∧
      blob.numberOfBatches + 1 ≤ config.maxProofsPerAggregation := by
  have htiles := h.pending_tiles
  rw [← List.singleton_append, ← List.append_assoc] at htiles
  exact ⟨(Tiling.tiles_append.mp htiles).1, h.fits_of_mem (by simp)⟩

theorem Books.triggers_eraseIdx (h : Books config bound first s waiting) (i : Nat) :
    ∀ t ∈ s.deadlineTriggers.eraseIdx i,
      t.aggregation.startBlockNumber ≤ lastBlock first s.aggregated + 1 :=
  fun t ht => h.triggers t (List.mem_of_mem_eraseIdx ht)

theorem Books.enqueue (h : Books config bound first s (blob :: waiting))
    (queue : List ForcedTransactionInclusionStatus)
    (arriving : List (List ForcedTransactionInclusionStatus)) (blocks : List Nat)
    (hsub : { s with
      processedFtxQueue := queue, arriving := arriving
      pendingTriggerBlocks := blocks }.ftxBlocks ⊆ s.ftxBlocks) :
    Books config bound first { s with
      pendingBlobs := s.pendingBlobs ++ [blob], processedFtxQueue := queue, arriving := arriving
      pendingTriggerBlocks := blocks } waiting := by
  refine { h with cover := ?_, noExcess := ?_ }
  · have hcover := h.cover
    simpa [State.aggregated] using hcover
  · have hexcess := h.noExcess
    rw [← List.singleton_append, ← List.append_assoc] at hexcess
    exact hexcess.suffix (m := []) hsub

/-- A blob that is too much does not end where a forced transaction asks for it. -/
def NoExcess (bound : Nat) (s : State) : Action → Prop
  | .newBlob blob arriving => bound < proofs (s.pendingBlobs ++ [blob]) →
    blob.endBlockNumber ∉ { s with arriving }.ftxBlocks
  | _ => True

instance : Decidable (NoExcess bound s a) :=
  match a with
  | .newBlob .. => inferInstanceAs (Decidable (_ → _))
  | .addProcessedFtx _ | .addTargetBlockNumber _ | .checkAggregation | .handleDeadlineTrigger .. =>
    .isTrue trivial

theorem Synced.proofs_le (h : Synced config s blobs) :
    proofs blobs ≤ config.maxProofsPerAggregation := by
  by_cases hne : blobs = []
  · simp [hne]
  · exact Nat.le_of_lt (h.fewProofs hne)

/-- Twice the limit is never too much. -/
theorem Good.noExcess_twice (h : Good config bound first s []) (hv : Valid config s a) :
    NoExcess (2 * config.maxProofsPerAggregation) s a := by
  cases a with
  | newBlob blob arriving =>
    intro hlt
    have hpending := h.synced.proofs_le
    have hfit := hv.2.2
    simp only [proofs_append, proofs_singleton] at hlt
    omega
  | _ => trivial

theorem Good.proofs_le (h : Good config bound first s waiting) : proofs s.pendingBlobs ≤ bound :=
  Nat.le_trans h.synced.proofs_le h.bound_ge

theorem Good.accept (h : Good config bound first s [])
    (hv : Valid config s (.newBlob blob arriving))
    (hexcess : NoExcess bound s (.newBlob blob arriving)) :
    Good config bound first { s with
      arriving := arriving, lastBlockNumber := blob.endBlockNumber
      accepted := s.accepted ++ [blob] } [blob] := by
  obtain ⟨hstart, hle, hfit⟩ := hv
  refine { h with
    cover := ?_, tiles := ?_, lastBlockNumber := ?_, fits := ?_, noExcess := ?_
    synced := { h.synced with } }
  · rw [← h.cover]
    simp [State.aggregated]
  · exact h.tiles.append ⟨by rw [hstart, h.lastBlockNumber], hle, trivial⟩
  · simp
  · intro b hb
    obtain hb | hb := List.mem_append.mp hb
    · exact h.fits b hb
    · rwa [List.mem_singleton.mp hb]
  · exact .concat h.proofs_le hexcess

theorem Good.frame (h : Good config bound first s []) (targets : List Nat)
    (queue : List ForcedTransactionInclusionStatus)
    (arriving : List (List ForcedTransactionInclusionStatus)) {triggers : List AggregationTrigger}
    (ht : ∀ t ∈ triggers, t.aggregation.startBlockNumber ≤ lastBlock first s.aggregated + 1) :
    Good config bound first { s with
      targetEndBlockNumbers := targets, processedFtxQueue := queue, arriving := arriving
      deadlineTriggers := triggers } [] := by
  refine ⟨{ h.toBooks with triggers := ht, noExcess := .of_le ?_ }, { h.synced with }⟩
  rw [List.append_nil]
  exact h.proofs_le

section
variable (hc : config.Ok)
include hc

theorem synced_onAggregation (s : State) (a : HandedOut) :
    Synced config (onAggregation s a) [] where
  forcedTransaction := rfl
  targetBlockNumbers := rfl
  proofLimit := rfl
  blobLimit _ _ := rfl
  timestampHardFork := rfl
  deadline := rfl
  fewProofs h := absurd rfl h
  fewBlobs m hm := (hc.maxBlobs m hm).1

theorem handOut_good (h : Books config bound first s waiting)
    (hs : s.pendingBlobs = l₁ ++ l₂) (hne : l₁ ≠ []) (ht : t.aggregation =
      ⟨lastBlock first s.aggregated + 1, lastBlock (lastBlock first s.aggregated) l₁⟩)
    (hblobs : ∀ m ∈ config.maxBlobsPerAggregation, l₁.length ≤ m)
    (hproofs : proofs l₁ ≤ bound) :
    ∃ s' again, handOut config s t = .ok (s', again) ∧
      Good config bound first s' (again ++ waiting) ∧ s'.pendingBlobs = [] ∧
      again.length < s.pendingBlobs.length := by
  have htiles := (Tiling.tiles_append.mp h.pending_tiles).1
  rw [hs] at htiles
  obtain ⟨m₁, m₂, rfl, hm₁, hmult, heq, hhead, hlast⟩ := handOut_ok hc hs htiles hne ht
  have hm : Tiles (lastBlock first s.aggregated) m₁ := by
    rw [List.append_assoc] at htiles
    exact (Tiling.tiles_append.mp htiles).1
  have hpos : 0 < m₁.length := List.length_pos_of_ne_nil hm₁
  refine ⟨_, _, heq, ⟨⟨?_, h.tiles, h.lastBlockNumber, h.fits, ?_, ?_, h.bound_ge, ?_, ?_, ?_⟩,
    synced_onAggregation hc s _⟩, rfl, ?_⟩
  · rw [aggregated_onAggregation]
    have hcover := h.cover
    simpa [hs, onAggregation, resetTriggerCalculators, consumeProcessedFtxs] using hcover
  · simp only [onAggregation, List.map_append, Tiling.tiles_append, h.ends]
    refine ⟨h.intervals, rfl, ?_, trivial⟩
    obtain ⟨b, hb, hlo⟩ := hm.head?_eq hm₁
    have hle := Nat.le_trans (hm.lo_le_hi (List.mem_of_head? hb))
      (hm.hi_le_last (List.mem_of_head? hb))
    rw [hlo] at hle
    exact hle
  · rw [aggregated_onAggregation]
    simp only [onAggregation, List.map_append, Tiling.last_append, lastBlock]
    rfl
  · intro a ha
    obtain ha | ha := List.mem_append.mp ha
    · exact h.within a ha
    · cases List.mem_singleton.mp ha
      refine ⟨hhead, hlast, ?_, ?_, hmult⟩
      · rw [proofs_append] at hproofs
        exact Nat.le_trans (Nat.le_add_right _ _) hproofs
      · intro m hm
        have := hblobs m hm
        rw [List.length_append] at this
        exact Nat.le_trans (Nat.le_add_right _ _) this
  · have hexcess := h.noExcess
    rw [hs, List.append_assoc, List.append_assoc, ← List.append_assoc m₂] at hexcess
    exact hexcess.suffix fun _ hn => ftxBlocks_consumeProcessedFtxs s ▸ hn
  · intro u hu
    rw [aggregated_onAggregation, lastBlock, Tiling.last_append]
    exact Nat.le_trans (h.triggers u hu) (Nat.succ_le_succ hm.le_last)
  · simp only [hs, List.length_append]
    omega

theorem addToCalculators_good (h : Books config bound first s waiting)
    (hs : s.pendingBlobs = pending ++ [blob]) (hsync : Synced config s pending)
    (hfit : blob.numberOfBatches + 1 ≤ config.maxProofsPerAggregation)
    (hproofs : proofs (pending ++ [blob]) < config.maxProofsPerAggregation)
    (hblobs : ∀ m ∈ config.maxBlobsPerAggregation, pending.length + 1 < m) :
    ∃ s', addToCalculators config s blob = .ok s' ∧ Good config bound first s' waiting ∧
      s'.pendingBlobs = s.pendingBlobs := by
  obtain ⟨proofLimit, blobLimit, heq, hp, hb⟩ := addToCalculators_ok hc hsync hfit hproofs hblobs
  refine ⟨_, heq, ⟨{ h with }, ?_⟩, rfl⟩
  constructor <;> simp only [hs, inFlight_concat]
  · rw [hsync.forcedTransaction]
  · rw [hsync.targetBlockNumbers]
  · exact hp
  · simpa using hb
  · simp only [TimestampHardFork.State.newBlob, hsync.timestampHardFork]
  · rw [hsync.deadline]
  · exact fun _ => hproofs
  · simpa using hblobs

theorem checkBlob_good (h : Good config bound first s (blob :: waiting)) :
    ∃ s' again, checkBlob config s blob = .ok (s', again) ∧
      Good config bound first s' (again ++ waiting) ∧
      s'.pendingBlobs.length + again.length ≤ s.pendingBlobs.length + 1 ∧
      (again ≠ [] → s'.pendingBlobs.length + again.length ≤ s.pendingBlobs.length) := by
  obtain ⟨htiles, hfit⟩ := h.next
  have hsync := h.synced.frame (s.pendingBlobs ++ [blob])
  obtain ⟨queue, arriving, blocks, triggers, hcheck, htriggered, hsub⟩ :=
    checkAggregationTriggers_ok hc (hsync s.processedFtxQueue s.arriving s.pendingTriggerBlocks)
      htiles hfit
  have hbooks := h.toBooks.enqueue queue arriving blocks hsub
  simp only [checkBlob, htiles.orderedInsert_eq, hcheck, ok_bind]
  cases triggers with
  | nil =>
    obtain ⟨hproofs, hblobs⟩ := htriggered
    obtain ⟨s', heq, hgood, hpending⟩ := addToCalculators_good hc hbooks rfl
      (hsync queue arriving blocks) hfit hproofs hblobs
    exact ⟨s', [], by rw [heq]; rfl, hgood, by simp [hpending], fun hne => absurd rfl hne⟩
  | cons t _ =>
    obtain ⟨l₁, l₂, hl, hne, ht, hblobs, hproofs⟩ := htriggered
    have hbound : proofs l₁ ≤ bound := by
      obtain hle | hend := hproofs
      · exact Nat.le_trans hle h.bound_ge
      · have hle := Nat.not_lt.mp fun hlt => h.noExcess _ _ _ rfl hlt hend
        rw [hl, proofs_append] at hle
        omega
    obtain ⟨s', again, heq, hgood, hnil, hlt⟩ := handOut_good hc hbooks hl hne ht hblobs hbound
    simp only [List.length_append, List.length_singleton] at hlt
    have hle : s'.pendingBlobs.length + again.length ≤ s.pendingBlobs.length := by
      rw [hnil, List.length_nil]
      omega
    exact ⟨s', again, heq, hgood, Nat.le_succ_of_le hle, fun _ => hle⟩

-- Runs

theorem initial_good (hbound : config.maxProofsPerAggregation ≤ bound) (first : Nat)
    (targets : List Nat) : Good config bound first (initial config first targets) [] := by
  refine ⟨⟨rfl, trivial, rfl, by simp [initial], trivial, rfl, hbound, by simp [initial],
    .of_le (Nat.zero_le _), by simp [initial]⟩,
    ⟨rfl, rfl, rfl, fun _ _ => rfl, rfl, rfl, fun h => absurd rfl h, ?_⟩⟩
  exact fun m hm => (hc.maxBlobs m hm).1

/-- A valid blob is processed, however deep the recursion may go. -/
theorem newBlob_good (h : Good config bound first s [])
    (hv : Valid config s (.newBlob blob arriving))
    (hexcess : NoExcess bound s (.newBlob blob arriving)) :
    ∃ s', newBlob config { s with arriving } blob = .ok s' ∧ Good config bound first s' [] ∧
      ∀ fuel, s.pendingBlobs.length < fuel → processBlob config fuel { s with
        arriving := arriving, lastBlockNumber := blob.endBlockNumber
        accepted := s.accepted ++ [blob] } blob = .ok s' := by
  obtain ⟨s', hprocess, hgood', -⟩ :=
    Worklist.process_ok (Good config bound first) (·.pendingBlobs.length)
      (fun _ _ _ => checkBlob_good hc) (h.accept hv hexcess)
      (Nat.lt_succ_self s.pendingBlobs.length)
  refine ⟨s', ?_, hgood', fun fuel hfuel => Worklist.process_mono hprocess hfuel⟩
  rw [newBlob, failIf_neg (not_not_intro hv.1)]
  exact hprocess

section
variable {t : AggregationTrigger} (h : Good config bound first s [])
  (ht : t.aggregation.startBlockNumber ≤ lastBlock first s.aggregated + 1)
include h ht

theorem handOut_deadline :
    handOut config s t = .error .noBlobsWithinAggregation ∨
      ∃ s₁ again, handOut config s t = .ok (s₁, again) ∧ Good config bound first s₁ again ∧
        s₁.pendingBlobs = [] ∧ again.length < s.pendingBlobs.length := by
  by_cases hmissing : s.pendingBlobs = [] ∨
      (∀ blob ∈ s.pendingBlobs, blob.startBlockNumber ≠ t.aggregation.startBlockNumber) ∨
      ∀ blob ∈ s.pendingBlobs, blob.endBlockNumber ≠ t.aggregation.endBlockNumber
  · left
    simp only [handOut, failIf, hmissing, if_true, Except.error_bind]
  · right
    simp only [not_or, not_forall, not_not] at hmissing
    obtain ⟨-, ⟨b, hb, hstart⟩, c, hmem, hend⟩ := hmissing
    have htiles := (Tiling.tiles_append.mp h.pending_tiles).1
    obtain ⟨l₁, l₂, hl, hne, hlast⟩ :=
      Tiling.exists_last_eq (lastBlock first s.aggregated) hmem
    -- what starts no later than the first pending blob starts with it
    have htrigger : t.aggregation =
        ⟨lastBlock first s.aggregated + 1, lastBlock (lastBlock first s.aggregated) l₁⟩ := by
      have := htiles.lt_lo hb
      have hfirst : t.aggregation.startBlockNumber = lastBlock first s.aggregated + 1 := by omega
      rw [lastBlock, hlast, hend, ← hfirst]
    have hproofs : proofs l₁ ≤ bound := by
      have hle := h.proofs_le
      rw [hl, proofs_append] at hle
      omega
    have hblobs : ∀ m ∈ config.maxBlobsPerAggregation, l₁.length ≤ m := by
      intro m hm
      have := h.synced.fewBlobs m hm
      rw [hl, List.length_append] at this
      omega
    obtain ⟨s₁, again, hout, hgood, hnil, hlt⟩ :=
      handOut_good hc h.toBooks hl hne htrigger hblobs hproofs
    rw [List.append_nil] at hgood
    exact ⟨s₁, again, hout, hgood, hnil, hlt⟩

theorem handleAggregationTrigger_good :
    handleAggregationTrigger config s t = .error .noBlobsWithinAggregation ∨
      ∃ s', handleAggregationTrigger config s t = .ok s' ∧ Good config bound first s' [] := by
  obtain herr | ⟨s₁, again, hout, hgood, hnil, hlt⟩ := handOut_deadline hc h ht
  · left
    simp only [handleAggregationTrigger, herr, Except.error_bind]
  · right
    have hdeep : again ≠ [] → s₁.pendingBlobs.length + again.length ≤ s.pendingBlobs.length := by
      intro _
      rw [hnil, List.length_nil]
      omega
    rw [← List.append_nil again] at hgood
    obtain ⟨s', hfold, hgood', -⟩ :=
      Worklist.foldlM_ok (Good config bound first) (·.pendingBlobs.length)
        (fun _ _ _ => Worklist.process_ok _ _ fun _ _ _ => checkBlob_good hc) hgood hdeep
    exact ⟨s', by simp only [handleAggregationTrigger, hout, ok_bind]; exact hfold, hgood'⟩

end

theorem handleDeadlineTrigger_good (h : Good config bound first s [])
    (hi : s.deadlineTriggers[i]? = some t)
    (arriving : List (List ForcedTransactionInclusionStatus)) :
    ∃ s', step config s (.handleDeadlineTrigger i arriving) = some s' ∧
      Good config bound first s' [] := by
  have hrest := h.triggers_eraseIdx i
  have hgood := h.frame s.targetEndBlockNumbers s.processedFtxQueue
  obtain herr | ⟨s', hok, hgood'⟩ := handleAggregationTrigger_good hc (hgood arriving hrest)
    (h.triggers t (List.mem_of_getElem? hi))
  · refine ⟨_, ?_, hgood s.arriving hrest⟩
    simp only [step, hi, Option.bind_eq_bind, Option.bind_some, herr]
  · refine ⟨s', ?_, hgood'⟩
    simp only [step, hi, Option.bind_eq_bind, Option.bind_some, hok]

theorem step_good (h : Good config bound first s []) (hv : Valid config s a)
    (hexcess : NoExcess bound s a) (hs : step config s a = some s') :
    Good config bound first s' [] := by
  cases a with
  | newBlob blob arriving =>
    obtain ⟨s₁, hnew, hgood, -⟩ := newBlob_good hc h hv hexcess
    simp only [step, hnew] at hs
    cases hs
    exact hgood
  | addProcessedFtx ftx | addTargetBlockNumber n =>
    cases hs
    exact h.frame _ _ _ h.triggers
  | checkAggregation =>
    obtain ⟨current, hcurrent, rfl⟩ := Option.map_eq_some_iff.mp hs
    refine h.frame _ _ _ fun t ht => ?_
    obtain ht | ht := List.mem_append.mp ht
    · exact h.triggers t ht
    · rw [List.mem_singleton.mp ht]
      have hne : s.pendingBlobs ≠ [] := by
        intro hnil
        rw [h.synced.deadline, hnil] at hcurrent
        cases hcurrent
      rw [h.synced.deadline, inFlight_eq (Tiling.tiles_append.mp h.pending_tiles).1 hne] at hcurrent
      cases hcurrent
      exact Nat.le_refl _
  | handleDeadlineTrigger i arriving =>
    obtain ⟨t, hi, -⟩ := Option.bind_eq_some_iff.mp hs
    obtain ⟨s₁, hs₁, hgood⟩ := handleDeadlineTrigger_good hc h hi arriving
    cases hs₁.symm.trans hs
    exact hgood

theorem reaches_good (h : Reaches config first targets s) :
    Good config (2 * config.maxProofsPerAggregation) first s [] :=
  h.invariant (I := (Good config _ first · [])) (initial_good hc (by omega) first targets)
    fun _ _ _ h hv => step_good hc h hv (h.noExcess_twice hv)

/-- Aggregations and pending blobs are the accepted blobs in order; each aggregation is within the
limits, that on proofs if no step is about a blob that is too much and ends where a forced
transaction asks for it; and whatever comes next, processing it ends. -/
theorem aggregations_partition (h : Reaches config first targets s) :
    s.aggregated ++ s.pendingBlobs = s.accepted ∧
    Tiling.Tiles BlockInterval.startBlockNumber BlockInterval.endBlockNumber first
      (s.aggregations.map (·.blobsToAggregate)) ∧
    (∀ a ∈ s.aggregations,
      a.blobs.head?.map (·.startBlockNumber) = some a.blobsToAggregate.startBlockNumber ∧
      a.blobs.getLast?.map (·.endBlockNumber) = some a.blobsToAggregate.endBlockNumber ∧
      (∀ m ∈ config.maxBlobsPerAggregation, a.blobs.length ≤ m) ∧
      (a.blobs.length ≤ config.aggregationSizeMultipleOf ∨
        config.aggregationSizeMultipleOf ∣ a.blobs.length)) ∧
    (Interleaving.Reaches (step config)
        (fun s a => Valid config s a ∧ NoExcess config.maxProofsPerAggregation s a)
        (initial config first targets) s →
      ∀ a ∈ s.aggregations, proofs a.blobs ≤ config.maxProofsPerAggregation) ∧
    (∀ blob arriving, Valid config s (.newBlob blob arriving) →
      ∃ s', step config s (.newBlob blob arriving) = some s' ∧
        ∀ fuel, s.pendingBlobs.length < fuel → processBlob config fuel { s with
          arriving := arriving, lastBlockNumber := blob.endBlockNumber
          accepted := s.accepted ++ [blob] } blob = .ok s') ∧
    ∀ i < s.deadlineTriggers.length, ∀ arriving,
      ∃ s', step config s (.handleDeadlineTrigger i arriving) = some s' := by
  have hgood := reaches_good hc h
  refine ⟨?_, hgood.intervals, fun a ha => ?_, fun h a ha => ?_, fun blob arriving hv => ?_,
    fun i hi arriving => ?_⟩
  · simpa using hgood.cover
  · have hw := hgood.within a ha
    exact ⟨hw.first, hw.last, hw.maxBlobs, hw.multipleOf⟩
  · have hgood := h.invariant (I := (Good config config.maxProofsPerAggregation first · []))
      (initial_good hc (Nat.le_refl _) first targets) fun _ _ _ h hok => step_good hc h hok.1 hok.2
    exact (hgood.within a ha).maxProofs
  · obtain ⟨s', hnew, -, hfuel⟩ := newBlob_good hc hgood hv (hgood.noExcess_twice hv)
    exact ⟨s', by simp only [step, hnew]; rfl, hfuel⟩
  · obtain ⟨s', hs, -⟩ := handleDeadlineTrigger_good hc hgood (List.getElem?_eq_getElem hi) arriving
    exact ⟨s', hs⟩

/-- Every calculator has the blobs that are pending, and these are within the limits. -/
theorem calculators_in_step (h : Reaches config first targets s) :
    Synced config s s.pendingBlobs :=
  (reaches_good hc h).synced

end

end

-- Some runs

def smallConfig : Config where
  maxProofsPerAggregation := 6
  maxBlobsPerAggregation := some 3
  aggregationSizeMultipleOf := 2
  hardForkTimestamps := [100]
  initialTimestamp := 0

theorem smallConfig_ok : smallConfig.Ok where
  maxProofs := by decide
  maxBlobs := by simp [smallConfig]
  multipleOf := by decide

def twoBlocks (numberOfBatches start : Nat) : BlobCounters :=
  ⟨numberOfBatches, start, start + 1, start, start + 1⟩

/-- The limit on proofs is reached with three blobs, of which two are handed out. Then a deadline is
handled too late, and a forced transaction that was not included closes an aggregation. -/
def severalTriggers : List Action :=
  [.newBlob (twoBlocks 1 1) [], .checkAggregation, .newBlob (twoBlocks 1 3) [],
    .newBlob (twoBlocks 1 5) [], .handleDeadlineTrigger 0 [],
    .newBlob (twoBlocks 1 7) [[⟨1, 9, .badNonce⟩]], .newBlob (twoBlocks 2 9) []]

theorem aggregations_partition_severalTriggers :
    ∃ s : State, s.aggregations.map (·.blobsToAggregate) = [⟨1, 4⟩, ⟨5, 8⟩] ∧
      s.aggregated ++ s.pendingBlobs = s.accepted ∧ ∀ a ∈ s.aggregations, proofs a.blobs ≤ 6 := by
  obtain ⟨s, hs, hobs⟩ : ∃ s, Interleaving.Reaches (step smallConfig)
      (fun s a => Valid smallConfig s a ∧ NoExcess 6 s a) (initial smallConfig 0 []) s ∧
      s.aggregations.map (·.blobsToAggregate) = [⟨1, 4⟩, ⟨5, 8⟩] :=
    Interleaving.exists_reaches severalTriggers _ (by decide +kernel)
  have hpartition := aggregations_partition smallConfig_ok (hs.mono fun _ _ hok => hok.1)
  exact ⟨s, hobs, hpartition.1, hpartition.2.2.2.1 hs⟩

theorem calculators_in_step_one_blob :
    ∃ s : State, s.deadline = some ⟨9, 10⟩ ∧ Synced smallConfig s s.pendingBlobs := by
  obtain ⟨s, hs, hobs⟩ : ∃ s, Reaches smallConfig 0 [] s ∧ s.deadline = some ⟨9, 10⟩ :=
    Interleaving.exists_reaches severalTriggers _ (by decide +kernel)
  exact ⟨s, hobs, calculators_in_step smallConfig_ok hs⟩

/-- Five proofs are in flight when a blob with three ends where a forced transaction was not
included in the next block. -/
def forcedOverProofLimit : List Action :=
  [.newBlob (twoBlocks 4 1) [], .addProcessedFtx ⟨1, 5, .badNonce⟩, .newBlob (twoBlocks 2 3) []]

theorem exists_too_many_proofs :
    smallConfig.maxProofsPerAggregation = 6 ∧
      ∃ s, Reaches smallConfig 0 [] s ∧ s.aggregations.map (proofs ·.blobs) = [8] :=
  ⟨rfl, Interleaving.exists_reaches forcedOverProofLimit _ (by decide +kernel)⟩

end StatusNetwork.Coordinator.Aggregation
