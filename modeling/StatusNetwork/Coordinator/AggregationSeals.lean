import StatusNetwork.Coordinator.AggregationLimits

/-!
# Aggregations end at target blocks

If no blob has a target block inside, its last block apart, then no aggregation has: a blob that
ends at a target block is handed out as the last one of its aggregation, whichever trigger comes
first.
-/

namespace StatusNetwork.Coordinator.Aggregation

structure Sealed (targets : List Nat) (accepted : List BlobCounters) (s : State)
    (waiting : List BlobCounters) : Prop where
  targets_eq : s.targetEndBlockNumbers = targets
  accepted_eq : s.accepted = accepted
  pending : ∀ blob ∈ s.pendingBlobs, ∀ t ∈ targets,
    ¬ (blob.startBlockNumber ≤ t ∧ t ≤ blob.endBlockNumber)
  waiting_inside : ∀ blob ∈ waiting, ∀ t ∈ targets,
    ¬ (blob.startBlockNumber ≤ t ∧ t < blob.endBlockNumber)
  aggregations : ∀ a ∈ s.aggregations, ∀ t ∈ targets,
    ¬ (a.blobsToAggregate.startBlockNumber ≤ t ∧ t < a.blobsToAggregate.endBlockNumber)

section
variable {s : State} {blob : BlobCounters}

theorem checkTarget_ne_none (type : AggregationTriggerType) (current : Option BlobsToAggregate)
    (hend : blob.endBlockNumber ∈ targets)
    (hinside : ∀ t ∈ targets, ¬ (blob.startBlockNumber ≤ t ∧ t < blob.endBlockNumber)) :
    TargetBlockNumbers.checkAggregationTrigger type targets current blob ≠ none := by
  have hnone : (targets.any fun n =>
      blob.startBlockNumber ≤ n ∧ n < blob.endBlockNumber) = false := by
    simpa using hinside
  unfold TargetBlockNumbers.checkAggregationTrigger
  cases hmax : targets.max? with
  | none =>
    rw [List.max?_eq_none_iff.mp hmax] at hend
    cases hend
  | some last =>
    have hle := (List.max?_eq_some_iff.mp hmax).2 _ hend
    simp only [gt_iff_lt, Nat.not_lt.mpr hle, hnone, hend, if_true, if_false, Bool.false_eq_true]
    exact Option.some_ne_none _

theorem handOut_inv (h : handOut config s t = .ok (s', again)) :
    ∃ m₁ m₂ head last, s.pendingBlobs = m₁ ++ m₂ ∧ m₁.head? = some head ∧
      m₁.getLast? = some last ∧
      s' = onAggregation s ⟨⟨head.startBlockNumber, last.endBlockNumber⟩, m₁⟩ ∧
      again ⊆ m₂ := by
  simp only [handOut, bind_eq_ok] at h
  generalize (fun blob : BlobCounters =>
    decide (t.aggregation.startBlockNumber ≤ blob.startBlockNumber ∧
      blob.endBlockNumber ≤ t.aggregation.endBlockNumber)) = p at h
  obtain ⟨_, -, k, -, h⟩ := h
  split at h
  · rename_i head last hhead hlast
    cases h
    refine ⟨_, (s.pendingBlobs.takeWhile p).drop k ++ s.pendingBlobs.dropWhile p, head, last, ?_,
      hhead, hlast, rfl, fun b hb => (List.mem_insertionSort _).mp hb⟩
    rw [← List.append_assoc, List.take_append_drop, List.takeWhile_append_dropWhile]
  · cases h

theorem addToCalculators_kept (h : addToCalculators config s blob = .ok s') :
    s'.pendingBlobs = s.pendingBlobs ∧ s'.targetEndBlockNumbers = s.targetEndBlockNumbers ∧
      s'.aggregations = s.aggregations ∧ s'.accepted = s.accepted := by
  simp only [addToCalculators, bind_eq_ok] at h
  obtain ⟨_, -, h⟩ := h
  split at h
  · obtain ⟨_, -, ⟨⟩⟩ := bind_eq_ok.mp h
    exact ⟨rfl, rfl, rfl, rfl⟩
  · cases h
    exact ⟨rfl, rfl, rfl, rfl⟩

/-- If only the last pending blob may end at a target block, an aggregation of the first ones has
none inside. -/
theorem handOut_sealed (hok : handOut config s trigger = .ok (s', again))
    (htargets : s.targetEndBlockNumbers = targets) (haccepted : s.accepted = accepted)
    (htiles : Tiles n s.pendingBlobs)
    (hinside : ∀ b ∈ s.pendingBlobs ++ waiting, ∀ t ∈ targets,
      ¬ (b.startBlockNumber ≤ t ∧ t < b.endBlockNumber))
    (hends : ∀ b ∈ s.pendingBlobs, b.endBlockNumber ∈ targets → s.pendingBlobs.getLast? = some b)
    (hbefore : ∀ a ∈ s.aggregations, ∀ t ∈ targets,
      ¬ (a.blobsToAggregate.startBlockNumber ≤ t ∧ t < a.blobsToAggregate.endBlockNumber)) :
    Sealed targets accepted s' (again ++ waiting) := by
  obtain ⟨m₁, m₂, head, last, hsplit, hhead, hlast, rfl, hagain⟩ := handOut_inv hok
  have hm₁ : m₁ ⊆ s.pendingBlobs := by simp [hsplit]
  have hm₂ : m₂ ⊆ s.pendingBlobs := by simp [hsplit]
  refine ⟨htargets, haccepted, nofun, fun b hb => hinside b ?_, fun a ha => ?_⟩
  · obtain hb | hb := List.mem_append.mp hb
    · exact List.mem_append_left _ (hm₂ (hagain hb))
    · exact List.mem_append_right _ hb
  · obtain ha | ha := List.mem_append.mp ha
    · exact hbefore a ha
    · rw [List.mem_singleton.mp ha]
      rintro t ht ⟨hle, hlt⟩
      -- the blob with the target block ends there, so it is the last of all
      have hlo := htiles.lt_lo (hm₁ (List.mem_of_head? hhead))
      have hend := htiles.hi_le_last (hm₁ (List.mem_of_getLast? hlast))
      obtain ⟨b, hb, hbt, htb⟩ := htiles.exists_mem (Nat.lt_of_lt_of_le hlo hle)
        (Nat.le_trans (Nat.le_of_lt hlt) hend)
      obtain hlt' | rfl := Nat.lt_or_eq_of_le htb
      · exact hinside b (List.mem_append_left _ hb) t ht ⟨hbt, hlt'⟩
      · obtain ⟨c, hc, hcend⟩ : ∃ c, s.pendingBlobs.getLast? = some c ∧
            c.endBlockNumber = lastBlock n s.pendingBlobs :=
          Tiling.getLast?_eq (List.ne_nil_of_mem hb)
        rw [hends b hb ht] at hc
        cases hc
        exact Nat.lt_irrefl _ (Nat.lt_of_lt_of_le hlt (Nat.le_trans hend (Nat.le_of_eq hcend.symm)))

theorem checkBlob_sealed (hc : config.Ok) (h : Good config bound first s (blob :: waiting))
    (hs : Sealed targets accepted s (blob :: waiting))
    (hok : checkBlob config s blob = .ok (s', again)) :
    Sealed targets accepted s' (again ++ waiting) := by
  obtain rfl := hs.targets_eq
  obtain rfl := hs.accepted_eq
  obtain ⟨htiles, hfit⟩ := h.next
  have hsync := h.synced.frame (s.pendingBlobs ++ [blob]) s.processedFtxQueue s.arriving
    s.pendingTriggerBlocks
  have hcheck := checkAggregationTriggers_eq hc hsync htiles hfit
  obtain ⟨queue, arriving, blocks, hforced, -, -⟩ :=
    checkForcedTransaction_eq { s with pendingBlobs := s.pendingBlobs ++ [blob] } blob
  rw [hforced] at hcheck
  simp only [checkBlob, htiles.orderedInsert_eq, hcheck, ok_bind] at hok
  have hinside := hs.waiting_inside blob List.mem_cons_self
  split at hok
  · refine handOut_sealed hok rfl rfl htiles ?_ ?_ hs.aggregations
    · intro b hb t ht hbt
      simp only [List.append_assoc, List.singleton_append] at hb
      obtain hb | hb := List.mem_append.mp hb
      · exact hs.pending b hb t ht ⟨hbt.1, Nat.le_of_lt hbt.2⟩
      · exact hs.waiting_inside b hb t ht hbt
    · intro b hb hend
      obtain hb | hb := List.mem_append.mp hb
      · have hle := htiles.lo_le_hi (List.mem_append_left _ hb)
        exact absurd ⟨hle, Nat.le_refl _⟩ (hs.pending b hb _ hend)
      · rw [List.mem_singleton.mp hb]
        exact List.getLast?_concat
  · rename_i htriggers
    obtain ⟨s₁, hadd, ⟨⟩⟩ := bind_eq_ok.mp hok
    obtain ⟨hpending, htargets, haggregations, haccepted⟩ := addToCalculators_kept hadd
    have hend : blob.endBlockNumber ∉ s.targetEndBlockNumbers := by
      intro hend
      obtain ⟨t, ht⟩ := Option.ne_none_iff_exists'.mp
        (checkTarget_ne_none .targetBlockNumber s.targetBlockNumbers hend hinside)
      have hmem : t ∈ ([] : List AggregationTrigger) := by
        rw [← htriggers, List.reduceOption_mem_iff]
        simp [ht]
      cases hmem
    refine ⟨htargets, haccepted, ?_, ?_, ?_⟩
    · rw [hpending]
      intro b hb t ht hbt
      obtain hb | hb := List.mem_append.mp hb
      · exact hs.pending b hb t ht hbt
      · rw [List.mem_singleton.mp hb] at hbt
        obtain hlt | heq := Nat.lt_or_eq_of_le hbt.2
        · exact hinside t ht ⟨hbt.1, hlt⟩
        · exact hend (heq ▸ ht)
    · exact fun b hb => hs.waiting_inside b (List.mem_cons_of_mem _ hb)
    · rw [haggregations]
      exact hs.aggregations

-- Runs

theorem processes_sealed (hc : config.Ok)
    (h : Worklist.Processes (checkBlob config) s waiting s')
    (hgood : Good config bound first s waiting) (hs : Sealed targets accepted s waiting) :
    Sealed targets accepted s' [] := by
  refine (h.invariant (I := fun s waiting =>
    Good config bound first s waiting ∧ Sealed targets accepted s waiting) ?_ ⟨hgood, hs⟩).2
  rintro s blob rest s₁ again ⟨hgood, hs⟩ hok
  obtain ⟨s₂, again₂, hok₂, hgood₂, -⟩ := checkBlob_good hc hgood
  cases hok₂.symm.trans hok
  exact ⟨hgood₂, checkBlob_sealed hc hgood hs hok⟩

theorem Sealed.extend (h : Sealed targets accepted s []) (hgood : Good config bound first s [])
    (htargets : ∀ t ∈ targets', t ∈ targets ∨ s.lastBlockNumber < t)
    (queue : List ForcedTransactionInclusionStatus) :
    Sealed targets' accepted
      { s with targetEndBlockNumbers := targets', processedFtxQueue := queue } [] := by
  have hlast {b : BlobCounters} (hb : b ∈ s.accepted) : b.endBlockNumber ≤ s.lastBlockNumber := by
    rw [hgood.lastBlockNumber]
    exact hgood.tiles.hi_le_last hb
  refine ⟨rfl, h.accepted_eq, fun b hb t ht hbt => ?_, nofun, fun a ha t ht hat => ?_⟩
  · obtain ht | ht := htargets t ht
    · exact h.pending b hb t ht hbt
    · have hle := hlast (b := b) (by simp [← hgood.cover, show b ∈ s.pendingBlobs from hb])
      exact Nat.lt_irrefl _ (Nat.lt_of_lt_of_le ht (Nat.le_trans hbt.2 hle))
  · obtain ht | ht := htargets t ht
    · exact h.aggregations a ha t ht hat
    · have hle := hgood.intervals.hi_le_last (List.mem_map_of_mem ha)
      have htiles := hgood.tiles
      rw [← hgood.cover] at htiles
      have hrest := (Tiling.tiles_append.mp htiles).2.le_last
      rw [hgood.ends] at hle
      rw [← Tiling.last_append, hgood.cover] at hrest
      rw [hgood.lastBlockNumber] at ht
      exact Nat.lt_irrefl _ (Nat.lt_trans ht (Nat.lt_of_lt_of_le hat.2 (Nat.le_trans hle hrest)))

section
variable (hc : config.Ok) (hgood : Good config bound first s []) (hs : Sealed targets accepted s [])
include hc hgood hs

theorem newBlob_sealed (hv : Valid config s (.newBlob blob arriving))
    (hexcess : NoExcess bound s (.newBlob blob arriving))
    (hblob : ∀ t ∈ targets, ¬ (blob.startBlockNumber ≤ t ∧ t < blob.endBlockNumber))
    (hok : step config s (.newBlob blob arriving) = some s') :
    Sealed targets (accepted ++ [blob]) s' [] := by
  obtain ⟨_, -, hprocess⟩ := bind_eq_ok.mp (Except.toOption_eq_some.mp hok)
  refine processes_sealed hc (Worklist.process_processes hprocess) (hgood.accept hv hexcess) ?_
  refine ⟨hs.targets_eq, by rw [← hs.accepted_eq], hs.pending, fun b hb => ?_, hs.aggregations⟩
  rw [List.mem_singleton.mp hb]
  exact hblob

theorem handleAggregationTrigger_sealed
    (ht : t.aggregation.startBlockNumber ≤ lastBlock first s.aggregated + 1)
    (hok : handleAggregationTrigger config s t = .ok s') : Sealed targets accepted s' [] := by
  obtain rfl := hs.targets_eq
  obtain rfl := hs.accepted_eq
  obtain ⟨⟨s₁, again⟩, hout, hfold⟩ := bind_eq_ok.mp hok
  have htiles := (Tiling.tiles_append.mp hgood.pending_tiles).1
  have hfree {b : BlobCounters} (hb : b ∈ s.pendingBlobs) :
      b.endBlockNumber ∉ s.targetEndBlockNumbers := fun hend =>
    hs.pending b hb _ hend ⟨htiles.lo_le_hi hb, Nat.le_refl _⟩
  have hsealed : Sealed s.targetEndBlockNumbers s.accepted s₁ (again ++ []) := by
    refine handOut_sealed hout rfl rfl htiles ?_ (fun b hb hend => absurd hend (hfree hb))
      hs.aggregations
    intro b hb t ht hbt
    rw [List.append_nil] at hb
    exact hs.pending b hb t ht ⟨hbt.1, Nat.le_of_lt hbt.2⟩
  rw [List.append_nil] at hsealed
  obtain herr | ⟨s₂, again₂, hout₂, hgood₂, -⟩ := handOut_deadline hc hgood ht
  · rw [herr] at hout
    cases hout
  · cases hout₂.symm.trans hout
    exact processes_sealed hc (Worklist.foldlM_processes
      (fun _ _ _ => Worklist.process_processes) hfold) hgood₂ hsealed

theorem handleDeadlineTrigger_sealed
    (hok : step config s (.handleDeadlineTrigger i arriving) = some s') :
    Sealed targets accepted s' [] := by
  obtain ⟨t, hi, hok⟩ := Option.bind_eq_some_iff.mp hok
  have hrest := hgood.triggers_eraseIdx i
  have hgood' := hgood.frame s.targetEndBlockNumbers s.processedFtxQueue arriving hrest
  have hs' : Sealed targets accepted { s with
      arriving := arriving, deadlineTriggers := s.deadlineTriggers.eraseIdx i } [] :=
    { hs with }
  dsimp only at hok
  split at hok
  · rename_i s₁ hhandle
    cases hok
    exact handleAggregationTrigger_sealed hc hgood' hs'
      (hgood.triggers t (List.mem_of_getElem? hi)) hhandle
  · cases hok
    exact { hs with }
  · cases hok

end

theorem checkAggregation_sealed (hs : Sealed targets accepted s [])
    (hok : step config s .checkAggregation = some s') : Sealed targets accepted s' [] := by
  obtain ⟨current, -, rfl⟩ := Option.map_eq_some_iff.mp hok
  exact { hs with }

end

end StatusNetwork.Coordinator.Aggregation
