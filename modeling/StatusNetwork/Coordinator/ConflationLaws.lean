import StatusNetwork.Coordinator.Layout

/-!
# What the conflation calculators do with a block

Each operation of the calculators keeps the layout it works on, and changes it as its name says: a
batch is closed, with its blob or without, or a block is appended to the open batch.
-/

namespace StatusNetwork.Coordinator.Conflation

open Batch (result)
open Layout (batches blocks handed)
open Tiling (last_append tiles_append)

-- Handing over a batch

section
variable {received : List (Block × BlockCounters M)}

/-- The received blocks with the numbers of a chain, sorted, are the chain. -/
theorem sorted_received (hmatch : ∀ p ∈ received, p.1.number = p.2.blockNumber)
    (hnodup : (received.map (·.1.number)).Nodup) {blocks : List (BlockCounters M)}
    (hblocks : Numbered n blocks) (hrec : ∀ c ∈ blocks, ∃ b, (b, c) ∈ received) {p : Nat → Bool}
    (hp : ∀ k, p k = true ↔ n < k ∧ k ≤ lastNumber n blocks) :
    (((received.map Prod.fst).filter (p ·.number)).insertionSort
      fun b₁ b₂ => b₁.number ≤ b₂.number).map (·.number) = blocks.map (·.blockNumber) := by
  have hsorted := (List.pairwise_insertionSort (fun b₁ b₂ : Block => b₁.number ≤ b₂.number)
    ((received.map Prod.fst).filter (p ·.number)))
  have hdistinct : ((((received.map Prod.fst).filter (p ·.number)).insertionSort
      fun b₁ b₂ => b₁.number ≤ b₂.number).map (·.number)).Nodup := by
    have hall : ((received.map Prod.fst).map (·.number)).Nodup := by
      rw [List.map_map]
      exact hnodup
    rw [((List.perm_insertionSort _ _).map _).nodup_iff]
    exact hall.sublist (List.filter_sublist.map _)
  refine List.Pairwise.eq_of_mem_iff ?_ (List.pairwise_map.mpr hblocks.pairwise) ?_
  · exact ((List.pairwise_map.mpr hsorted).and hdistinct).imp fun h => Nat.lt_of_le_of_ne h.1 h.2
  · intro k
    simp only [List.mem_map, List.mem_insertionSort, List.mem_filter, Prod.exists, hp]
    constructor
    · rintro ⟨b, ⟨-, hlt, hle⟩, rfl⟩
      obtain ⟨c, hc, hle₁, hle₂⟩ := hblocks.exists_mem hlt hle
      exact ⟨c, hc, Nat.le_antisymm hle₁ hle₂⟩
    · rintro ⟨c, hc, rfl⟩
      obtain ⟨b, hb⟩ := hrec c hc
      have hnumber := hmatch _ hb
      refine ⟨b, ⟨⟨b, c, hb, rfl⟩, ?_⟩, hnumber⟩
      rw [hnumber]
      exact ⟨hblocks.lt_lo hc, hblocks.hi_le_last hc⟩

end

section
variable {s : State M σ} {a : Layout M} {next : List (BlockCounters M)}

def Layout.closeBatch (a : Layout M) (hne : a.current ≠ []) (t : ConflationTrigger) : Layout M :=
  ⟨a.closed, a.pending ++ [⟨a.current, hne, t⟩], []⟩

def Layout.closeBlob (a : Layout M) : Layout M := ⟨a.closed ++ [a.pending], [], a.current⟩

def Layout.append (a : Layout M) (b : BlockCounters M) : Layout M :=
  { a with current := a.current ++ [b] }

@[simp] theorem batches_closeBatch (hne : a.current ≠ []) :
    (a.closeBatch hne t).batches = a.batches ++ [⟨a.current, hne, t⟩] := by
  simp [batches, Layout.closeBatch]

@[simp] theorem handed_closeBatch (hne : a.current ≠ []) :
    (a.closeBatch hne t).handed = a.handed ++ a.current := by
  simp [handed]

@[simp] theorem blocks_closeBatch (hne : a.current ≠ []) :
    (a.closeBatch hne t).blocks = a.blocks := by
  rw [blocks, handed_closeBatch]
  exact List.append_nil _

@[simp] theorem batches_closeBlob : a.closeBlob.batches = a.batches := by
  simp [batches, Layout.closeBlob]

@[simp] theorem handed_closeBlob : a.closeBlob.handed = a.handed := by
  simp [handed]

@[simp] theorem blocks_closeBlob : a.closeBlob.blocks = a.blocks := by
  rw [blocks, handed_closeBlob]
  rfl

@[simp] theorem blocks_append : (a.append b).blocks = a.blocks ++ [b] :=
  (List.append_assoc _ _ _).symm

theorem handleConflation_eq (h : Chain first a next s) (hne : a.current ≠ []) :
    ∃ conflation, HandedOver s.received ⟨a.current, hne, t⟩ conflation ∧
      handleConflation s (result ⟨a.current, hne, t⟩) = { s with
        blocksInProgress :=
          (s.received.map Prod.fst).filter (lastNumber first a.blocks < ·.number)
        conflations := s.conflations ++ [conflation] } := by
  have hcontains (k : Nat) : (result ⟨a.current, hne, t⟩).contains k = true ↔
      lastNumber first a.handed < k ∧ k ≤ lastNumber first a.blocks :=
    result_contains ⟨a.current, hne, t⟩ h.numbered
  have hnumbered : Numbered (lastNumber first a.handed) a.current :=
    (tiles_append.mp (tiles_append.mp h.numbered).1).2
  have hlast : lastNumber first a.blocks = lastNumber (lastNumber first a.handed) a.current :=
    last_append
  have hfilter : s.blocksInProgress.filter ((result ⟨a.current, hne, t⟩).contains ·.number) =
      (s.received.map Prod.fst).filter fun b =>
        (result ⟨a.current, hne, t⟩).contains b.number := by
    rw [h.inProgress, List.filter_filter]
    refine List.filter_congr fun b _ => ?_
    simp only [Bool.and_eq_left_iff_imp, decide_eq_true_eq, hcontains]
    exact And.left
  refine ⟨⟨((s.received.map Prod.fst).filter fun b =>
    (result ⟨a.current, hne, t⟩).contains b.number).insertionSort
      fun b₁ b₂ => b₁.number ≤ b₂.number, _⟩, ⟨rfl, ?_, ?_⟩, ?_⟩
  · refine sorted_received h.matching h.distinct hnumbered (fun c hc => h.received c ?_) ?_
    · simp [blocks, hc]
    · intro k
      rw [hcontains, hlast]
  · intro b hb
    exact List.mem_of_mem_filter ((List.mem_insertionSort _).mp hb)
  · simp only [handleConflation, hfilter]
    congr 1
    rw [h.inProgress, List.filter_filter]
    refine List.filter_congr fun b hb => ?_
    rw [Bool.eq_iff_iff]
    simp only [Bool.and_eq_true, decide_eq_true_eq, List.mem_insertionSort, List.mem_filter, hb,
      true_and, hcontains, hlast]
    have hle : lastNumber first a.handed ≤ lastNumber (lastNumber first a.handed) a.current :=
      hnumbered.le_last
    omega

theorem Chain.reshape (h : Chain first a next s) (hblocks : a'.blocks = a.blocks)
    (hlast : s'.lastBlockNumber = s.lastBlockNumber) (hrec : s'.received = s.received)
    (hqueue : s'.blocksToConflate = s.blocksToConflate) (hprog : s'.blocksInProgress =
      (s.received.map Prod.fst).filter (lastNumber first a'.handed < ·.number)) :
    Chain first a' next s' := by
  constructor
  · rw [hblocks]
    exact h.numbered
  · rw [hblocks, hlast]
    exact h.lastBlockNumber
  · rw [hblocks, hrec]
    exact h.received
  · rw [hrec, hqueue]
    exact h.queued
  · rw [hrec]
    exact h.matching
  · rw [hrec]
    exact h.distinct
  · rw [hprog, hrec]

end

-- Closing a blob

section
variable {config : Config M σ} {s : State M σ}

def blobFired (config : Config M σ) (s : State M σ) (blob : Blob M) : State M σ :=
  { s with
    dataDrained := true
    compressorState := config.blobCompressor.initial
    blobs := s.blobs ++ [blob]
    blobBlockCounters := s.blobBlockCounters.filter fun block =>
      s.blobBatches.all fun conflation => !conflation.contains block.blockNumber
    blobBatches := []
    numberOfBatches := 0 }

theorem blockTimestamp_ok : blockTimestamp s k = .ok ts ↔
    ∃ block, s.blobBlockCounters.find? (·.blockNumber = k) = some block ∧
      block.blockTimestamp = ts := by
  unfold blockTimestamp
  cases s.blobBlockCounters.find? (·.blockNumber = k) <;> simp

theorem fireBlob_ok : fireBlobTriggerAndResetState config s = .ok s' ↔
    ∃ first last start stop, s.blobBatches.head? = some first ∧
      s.blobBatches.getLast? = some last ∧
      blockTimestamp s first.startBlockNumber = .ok start ∧
      blockTimestamp s last.endBlockNumber = .ok stop ∧
      AllConsecutive s.blobBatches ∧ start ≤ stop ∧
      s' = blobFired config s ⟨s.blobBatches,
        config.blobCompressor.getCompressedData s.compressorState, start, stop⟩ := by
  unfold fireBlobTriggerAndResetState
  cases s.blobBatches.head? with
  | none => simp
  | some first =>
    cases s.blobBatches.getLast? with
    | none => simp
    | some last =>
      simp only [bind_eq_ok, failIf_eq_ok, not_not, Nat.not_lt, resetData, if_true,
        Option.some.injEq, exists_and_left, exists_eq_left', exists_const, Except.ok.injEq,
        blobFired]
      constructor
      all_goals
        rintro ⟨start, hstart, stop, hstop, hall, hle, rfl⟩
        exact ⟨start, hstart, stop, hstop, hall, hle, rfl⟩

theorem allConsecutive_of_numbered {batches : List (Batch M)}
    (h : Numbered n (batches.flatMap (·.blocks))) : AllConsecutive (batches.map result) := by
  induction batches generalizing n with
  | nil => trivial
  | cons b₁ batches ih =>
    rw [List.flatMap_cons] at h
    cases batches with
    | nil => trivial
    | cons b₂ batches =>
      have hrest := (tiles_append.mp h).2
      refine ⟨?_, ih hrest⟩
      rw [List.flatMap_cons, ← List.append_assoc] at h
      rw [result_start b₂ (tiles_append.mp h).1, result_end b₁ n]

/-- The triggers and the number of batches that close the blob with the batch. -/
def Closes (config : Config M σ) (t : ConflationTrigger) (numberOfBatches : Nat) : Prop :=
  t = .dataLimit ∨ t = .timeLimit ∨ t = .targetBlockNumber ∨ t = .hardFork ∨
    numberOfBatches ≥ config.batchesLimit

/-- The compressor has been told that a batch starts, and has been asked about the block. -/
def batchStarted (config : Config M σ) (s : State M σ) (block : BlockCounters M) : State M σ :=
  { s with
    compressorState := config.blobCompressor.startNewBatch s.compressorState
    lastValidatedBlock := some block.blockRLPEncoded }

/-- After the conflation was added and handed over: the blob is closed, or a batch is started and
the blob is closed if the block that is next does not fit any more. -/
theorem handleBatchTrigger_ok
    (hs₁ : handleConflation { s with
      blobBatches := s.blobBatches ++ [c], numberOfBatches := s.numberOfBatches + 1 } c = s₁) :
    handleBatchTrigger config s c = .ok s' ↔
      (Closes config c.conflationTrigger s₁.numberOfBatches ∧
        fireBlobTriggerAndResetState config { s₁ with
          targetEndBlockNumbers := if c.conflationTrigger = .hardFork then
            c.endBlockNumber :: s₁.targetEndBlockNumbers else s₁.targetEndBlockNumbers } = .ok s') ∨
      (¬ Closes config c.conflationTrigger s₁.numberOfBatches ∧
        ∃ block, s₁.blobBlockCounters.getLast? = some block ∧
          if config.blobCompressor.canAppendBlock
              (config.blobCompressor.startNewBatch s₁.compressorState) block.blockRLPEncoded then
            s' = batchStarted config s₁ block
          else fireBlobTriggerAndResetState config (batchStarted config s₁ block) = .ok s') := by
  unfold handleBatchTrigger
  simp only [hs₁]
  by_cases hcloses : Closes config c.conflationTrigger s₁.numberOfBatches
  · have hif := hcloses
    unfold Closes at hif
    simp only [hif, if_true, hcloses, true_and, not_true, false_and, or_false]
    by_cases hfork : c.conflationTrigger = .hardFork
    all_goals
      simp [hfork]
  · have hif := hcloses
    unfold Closes at hif
    simp only [hif, if_false, hcloses, not_false_iff, true_and, false_and, false_or]
    cases s₁.blobBlockCounters.getLast? with
    | none => simp
    | some block =>
      simp only [checkData, Option.some.injEq, exists_eq_left']
      split
      · simp [batchStarted, eq_comm]
      · simp [batchStarted]

/-- What firing a conflation leaves as it is. -/
structure Kept (s s' : State M σ) : Prop where
  processedFtxQueue : s'.processedFtxQueue = s.processedFtxQueue
  pendingTriggerBlocks : s'.pendingTriggerBlocks = s.pendingTriggerBlocks
  lastProcessedTimestamp : s'.lastProcessedTimestamp = s.lastProcessedTimestamp
  received : s'.received = s.received
  blocksToConflate : s'.blocksToConflate = s.blocksToConflate
  blobs : s.blobs <+: s'.blobs

theorem reset_kept (config : Config M σ) (s : State M σ) : Kept s (reset config s) ∧
    (reset config s).targetEndBlockNumbers = s.targetEndBlockNumbers := by
  unfold reset resetData
  split
  all_goals
    exact ⟨⟨rfl, rfl, rfl, rfl, rfl, List.prefix_rfl⟩, rfl⟩

theorem fireBlob_kept (h : fireBlobTriggerAndResetState config s = .ok s') :
    Kept s (reset config s') ∧
      (reset config s').targetEndBlockNumbers = s.targetEndBlockNumbers := by
  obtain ⟨-, -, start, stop, -, -, -, -, -, -, rfl⟩ := fireBlob_ok.mp h
  exact ⟨⟨rfl, rfl, rfl, rfl, rfl, List.prefix_append _ _⟩, rfl⟩

theorem yields_closeBatch (config : Config M σ) (a : Layout M) (hne : a.current ≠ [])
    (t : ConflationTrigger) :
    Yields config.blobCompressor (a.closeBatch hne t).pending
        (config.blobCompressor.getCompressedData
          (appendAll config.blobCompressor (afterBatches config.blobCompressor a.pending)
            a.current)) ∧
      Yields config.blobCompressor (a.closeBatch hne t).pending
        (config.blobCompressor.getCompressedData
          (afterBatches config.blobCompressor (a.closeBatch hne t).pending)) :=
  ⟨⟨a.pending, ⟨a.current, hne, t⟩, rfl, .inl rfl⟩, ⟨a.pending, ⟨a.current, hne, t⟩, rfl, .inr rfl⟩⟩

/-- A batch has been handed over and added to the open blob. -/
structure BatchAdded [Fintype M] (config : Config M σ) (first : Nat) (a : Layout M)
    (next : List (BlockCounters M)) (s : State M σ) : Prop where
  outcome : Outcome config a s
  chain : Chain first a next s
  current : a.current = []
  drained : s.dataDrained = false
  blobBatches : s.blobBatches = a.pending.map Batch.result
  blobBlockCounters : s.blobBlockCounters = a.pending.flatMap (·.blocks) ++ next
  validated : ∀ b ∈ next, s.lastValidatedBlock = some b.blockRLPEncoded

variable [Fintype M] {a : Layout M} {next : List (BlockCounters M)} {first : Nat}

section
variable (h : BatchAdded config first a next s)
include h

theorem BatchAdded.pending_numbered :
    Numbered (lastNumber first (a.closed.flatten.flatMap (·.blocks)))
      (a.pending.flatMap (·.blocks) ++ next) := by
  have hnumbered := h.chain.numbered
  simp only [blocks, handed, batches, h.current, List.append_nil,
    List.flatMap_append, List.append_assoc] at hnumbered
  exact (tiles_append.mp hnumbered).2

theorem BatchAdded.filter_eq : (s.blobBlockCounters.filter fun block =>
      s.blobBatches.all fun conflation => !conflation.contains block.blockNumber) = next := by
  have hnumbered := h.pending_numbered
  rw [h.blobBlockCounters, h.blobBatches, List.filter_append]
  have hbefore := (tiles_append.mp hnumbered).1
  -- a batch of the blob with the blocks around it
  have hsplit : ∀ batch ∈ a.pending, ∃ l m,
      a.pending.flatMap (·.blocks) = l ++ batch.blocks ++ m := by
    intro batch hb
    obtain ⟨l, m, hl⟩ := List.append_of_mem hb
    exact ⟨l.flatMap (·.blocks), m.flatMap (·.blocks), by simp [hl]⟩
  have hin : ((a.pending.flatMap (·.blocks)).filter fun block =>
      (a.pending.map result).all fun conflation =>
        !conflation.contains block.blockNumber) = [] := by
    rw [List.filter_eq_nil_iff]
    intro block hb hall
    obtain ⟨batch, hbatch, hb⟩ := List.mem_flatMap.mp hb
    obtain ⟨l, m, hl⟩ := hsplit batch hbatch
    rw [hl] at hbefore
    have hnot := List.all_eq_true.mp hall _ (List.mem_map_of_mem hbatch)
    rw [contains_of_mem batch hbefore hb] at hnot
    cases hnot
  have hout : (next.filter fun block =>
      (a.pending.map result).all fun conflation =>
        !conflation.contains block.blockNumber) = next := by
    rw [List.filter_eq_self]
    intro block hb
    rw [List.all_eq_true]
    intro conflation hc
    obtain ⟨batch, hbatch, rfl⟩ := List.mem_map.mp hc
    obtain ⟨l, m, hl⟩ := hsplit batch hbatch
    have hlt := (tiles_append.mp hnumbered).2.lt_lo hb
    rw [hl] at hbefore hlt
    rw [not_contains_of_lt batch hbefore hlt]
    rfl
  rw [hin, hout, List.nil_append]

theorem BatchAdded.keep
    (hcompressed : s.compressorState = afterBatches config.blobCompressor a.pending)
    (hnumber : s.numberOfBatches = a.pending.length)
    (hfew : a.pending.length < config.batchesLimit) :
    Represents config first a next (reset config s) := by
  have hreset : reset config s = { s with
      inprogressTracesCounters := fun _ => 0, blockCount := 0, startBlockNumber := none } := by
    simp [reset, resetData, h.drained]
  rw [hreset]
  refine ⟨{ h.outcome with }, { h.chain with }, ?_⟩
  constructor
  · simp [h.current]
  · rw [h.current]
    rfl
  · rw [h.current]
    exact hcompressed
  · simp [h.drained]
  · simp [h.current]
  · exact h.blobBatches
  · simpa [h.current] using h.blobBlockCounters
  · exact hnumber
  · exact h.validated
  · exact fun _ => hfew
  · simp [h.current]

theorem BatchAdded.fire (hdata : Yields config.blobCompressor a.pending
      (config.blobCompressor.getCompressedData s.compressorState))
    (hfew : a.pending.length ≤ config.batchesLimit)
    (hfire : fireBlobTriggerAndResetState config s = .ok s') :
    Represents config first a.closeBlob next (reset config s') := by
  obtain ⟨-, -, start, stop, -, -, -, -, -, -, rfl⟩ := fireBlob_ok.mp hfire
  have hprog := h.chain.inProgress
  rw [← handed_closeBlob] at hprog
  refine ⟨⟨?_, ?_, ?_⟩, h.chain.reshape blocks_closeBlob rfl rfl rfl hprog, ?_⟩
  · rw [batches_closeBlob]
    exact h.outcome.conflations
  · refine List.rel_append h.outcome.blobs (.cons ⟨h.blobBatches, hfew, hdata⟩ .nil)
  · rw [batches_closeBlob]
    exact h.outcome.within
  · have hcurrent : a.closeBlob.current = [] := h.current
    constructor
    · rw [hcurrent]
      rfl
    · rw [hcurrent]
      rfl
    · rw [hcurrent]
      rfl
    · exact fun _ => ⟨rfl, hcurrent⟩
    · rw [hcurrent]
      rfl
    · rfl
    · rw [hcurrent]
      exact h.filter_eq
    · rfl
    · exact h.validated
    · exact fun hne => absurd rfl hne
    · exact fun hne => absurd hcurrent hne

def Ordered (received : List (Block × BlockCounters M)) : Prop :=
  ∀ p ∈ received, ∀ q ∈ received, p.1.number ≤ q.1.number →
    p.2.blockTimestamp ≤ q.2.blockTimestamp

theorem BatchAdded.blockTimestamp_ok (hb : b ∈ a.pending.flatMap (·.blocks)) :
    ∃ p ∈ s.received, p.1.number = b.blockNumber ∧
      blockTimestamp s b.blockNumber = .ok p.2.blockTimestamp := by
  have hfind : (s.blobBlockCounters.find? (·.blockNumber = b.blockNumber)).isSome := by
    rw [List.find?_isSome]
    refine ⟨b, ?_, by simp⟩
    rw [h.blobBlockCounters]
    exact List.mem_append_left _ hb
  obtain ⟨c, hc⟩ := Option.isSome_iff_exists.mp hfind
  have hmem := List.mem_of_find?_eq_some hc
  have hnumber : c.blockNumber = b.blockNumber := by simpa using List.find?_some hc
  have hblocks : c ∈ a.blocks ++ next := by
    rw [h.blobBlockCounters] at hmem
    simp only [blocks, handed, batches, h.current, List.append_nil,
      List.flatMap_append, List.append_assoc]
    exact List.mem_append_right _ hmem
  obtain ⟨block, hblock⟩ := h.chain.received c hblocks
  refine ⟨(block, c), hblock, (h.chain.matching _ hblock).trans hnumber, ?_⟩
  exact Conflation.blockTimestamp_ok.mpr ⟨c, hc, rfl⟩

theorem BatchAdded.fire_ok (hne : a.pending ≠ []) (htimes : Ordered s.received) :
    ∃ s', fireBlobTriggerAndResetState config s = .ok s' := by
  have hnumbered := (tiles_append.mp h.pending_numbered).1
  obtain ⟨before, last, hlast⟩ := (List.eq_nil_or_concat a.pending).resolve_left hne
  obtain ⟨head, after, hhead⟩ := List.exists_cons_of_ne_nil hne
  have hfirst : head.blocks.head head.nonempty ∈ a.pending.flatMap (·.blocks) := by
    rw [hhead]
    exact List.mem_append_left _ (List.head_mem head.nonempty)
  have hend : last.blocks.getLast last.nonempty ∈ a.pending.flatMap (·.blocks) := by
    simp [hlast]
  obtain ⟨p, hp, hpn, hpt⟩ := h.blockTimestamp_ok hfirst
  obtain ⟨q, hq, hqn, hqt⟩ := h.blockTimestamp_ok hend
  refine ⟨_, fireBlob_ok.mpr ⟨head.result, last.result, _, _, ?_, ?_, hpt, hqt, ?_,
    htimes p hp q hq ?_, rfl⟩⟩
  · simp [h.blobBatches, hhead]
  · simp [h.blobBatches, hlast]
  · rw [h.blobBatches]
    exact allConsecutive_of_numbered hnumbered
  · rw [hpn, hqn]
    have hlo := hnumbered
    rw [hhead] at hlo
    have hstart := result_start (l := []) head (tiles_append.mp hlo).1
    exact Nat.le_trans (Nat.le_of_eq hstart) (hnumbered.lt_lo hend)

end

-- Closing a batch

section
variable (h : InStep config a next s) (hlast : s.blobBlockCounters.getLast? = some block)
include h hlast

theorem InStep.last_mem_next : ∀ b ∈ next, block ∈ next := by
  intro b hb
  rw [h.blobBlockCounters, ← List.append_assoc,
    List.getLast?_append_of_ne_nil _ (List.ne_nil_of_mem hb)] at hlast
  exact List.mem_of_getLast? hlast

theorem InStep.validated_last :
    ∀ b ∈ next, some block.blockRLPEncoded = some b.blockRLPEncoded := by
  intro b hb
  rw [← h.validated b hb, ← h.validated block (h.last_mem_next hlast b hb)]

end

/-- What firing a conflation comes to. -/
structure Fired (config : Config M σ) (first : Nat) (a : Layout M) (next : List (BlockCounters M))
    (hne : a.current ≠ []) (t : ConflationTrigger) (s s' : State M σ) : Prop where
  kept : Kept s s'
  /-- The batch is closed, with its blob or without. -/
  closed : (¬ Closes config t (a.pending.length + 1) ∧
      (∀ b, next = [b] → config.blobCompressor.canAppendBlock
        (afterBatches config.blobCompressor (a.closeBatch hne t).pending) b.blockRLPEncoded) ∧
      Represents config first (a.closeBatch hne t) next s' ∧
      s'.targetEndBlockNumbers = s.targetEndBlockNumbers) ∨
    (Represents config first (a.closeBatch hne t).closeBlob next s' ∧
      s'.targetEndBlockNumbers = if t = .hardFork then
        s.lastBlockNumber :: s.targetEndBlockNumbers else s.targetEndBlockNumbers)

section
variable (h : Represents config first a next s) (hne : a.current ≠ [])
include h hne

theorem batchAdded (t : ConflationTrigger) : ∃ conflation, handleConflation { s with
        blobBatches := s.blobBatches ++ [result ⟨a.current, hne, t⟩]
        numberOfBatches := s.numberOfBatches + 1 } (result ⟨a.current, hne, t⟩) = { s with
        blobBatches := s.blobBatches ++ [result ⟨a.current, hne, t⟩]
        numberOfBatches := s.numberOfBatches + 1
        blocksInProgress :=
          (s.received.map Prod.fst).filter (lastNumber first a.blocks < ·.number)
        conflations := s.conflations ++ [conflation] } ∧
      ∀ targets compressorState validated, (∀ b ∈ next, validated = some b.blockRLPEncoded) →
        BatchAdded config first (a.closeBatch hne t) next { s with
          targetEndBlockNumbers := targets
          compressorState := compressorState
          lastValidatedBlock := validated
          blobBatches := s.blobBatches ++ [result ⟨a.current, hne, t⟩]
          numberOfBatches := s.numberOfBatches + 1
          blocksInProgress :=
            (s.received.map Prod.fst).filter (lastNumber first a.blocks < ·.number)
          conflations := s.conflations ++ [conflation] } := by
  obtain ⟨conflation, hhanded, heq⟩ := handleConflation_eq (s := { s with
    blobBatches := s.blobBatches ++ [result ⟨a.current, hne, t⟩]
    numberOfBatches := s.numberOfBatches + 1 })
    { h.chain with } hne
  refine ⟨conflation, heq, fun targets x validated hvalid =>
    ⟨⟨?_, h.outcome.blobs, ?_⟩, h.chain.reshape (blocks_closeBatch hne) rfl rfl rfl ?_, rfl, ?_, ?_,
      ?_, hvalid⟩⟩
  · rw [batches_closeBatch]
    exact List.rel_append h.outcome.conflations (.cons hhanded .nil)
  · intro batch hb
    rw [batches_closeBatch] at hb
    obtain hb | hb := List.mem_append.mp hb
    · exact h.outcome.within batch hb
    · rw [List.mem_singleton.mp hb]
      exact h.inStep.within hne
  · rw [handed_closeBatch]
    rfl
  · exact Bool.eq_false_iff.mpr fun hdrained => hne (h.inStep.drained hdrained).2
  · simp [h.inStep.blobBatches, Layout.closeBatch]
  · simp [h.inStep.blobBlockCounters, Layout.closeBatch]

theorem lastBlockNumber_eq (t : ConflationTrigger) :
    s.lastBlockNumber = (result ⟨a.current, hne, t⟩).endBlockNumber := by
  rw [h.chain.lastBlockNumber, result_end _ (lastNumber first a.handed)]
  exact last_append

theorem fire_eq (t : ConflationTrigger) :
    fireConflationAndResetState config s s.lastBlockNumber t = (do
      let s ← handleBatchTrigger config s (result ⟨a.current, hne, t⟩)
      .ok (reset config s)) := by
  have hstart : s.startBlockNumber = some (a.current.head hne).blockNumber := by
    rw [h.inStep.startBlockNumber, List.head?_eq_some_head hne]
    rfl
  have hlast := lastBlockNumber_eq h hne t
  have hnumbered : Numbered (lastNumber first a.handed) a.current :=
    (tiles_append.mp (tiles_append.mp h.chain.numbered).1).2
  have hle : ¬ s.lastBlockNumber < (a.current.head hne).blockNumber := by
    rw [hlast, result_end _ (lastNumber first a.handed)]
    exact Nat.not_lt.mpr (hnumbered.hi_le_last (List.head_mem hne))
  simp only [fireConflationAndResetState, hstart, failIf_neg hle, ok_bind]
  rw [h.inStep.traces, hlast]
  rfl

theorem fire_fired (hlimit : 1 ≤ config.batchesLimit)
    (hfire : fireConflationAndResetState config s s.lastBlockNumber t = .ok s') :
    Fired config first a next hne t s s' := by
  rw [fire_eq h hne, bind_eq_ok] at hfire
  obtain ⟨s₁, hbatch, hs'⟩ := hfire
  cases hs'
  obtain ⟨conflation, heq, hadded⟩ := batchAdded h hne t
  have hlen : (a.closeBatch hne t).pending.length = a.pending.length + 1 := by
    simp [Layout.closeBatch]
  have hfew : (a.closeBatch hne t).pending.length ≤ config.batchesLimit := by
    rw [hlen]
    by_cases hp : a.pending = []
    · simpa [hp] using hlimit
    · exact h.inStep.fewBatches hp
  obtain ⟨-, hfire⟩ | ⟨hcloses, block, hblock, hstarted⟩ := (handleBatchTrigger_ok heq).mp hbatch
  · obtain ⟨hkept, htargets⟩ := fireBlob_kept hfire
    refine ⟨{ hkept with }, .inr ⟨?_, ?_⟩⟩
    · refine (hadded _ _ _ h.inStep.validated).fire ?_ hfew hfire
      have hyields := (yields_closeBatch config a hne t).1
      rw [← h.inStep.compressed] at hyields
      exact hyields
    · rw [htargets, lastBlockNumber_eq h hne t]
      rfl
  · have hcompressed : config.blobCompressor.startNewBatch s.compressorState =
        afterBatches config.blobCompressor (a.closeBatch hne t).pending := by
      rw [h.inStep.compressed]
      exact (afterBatches_concat _ _ ⟨a.current, hne, t⟩).symm
    have hvalid := h.inStep.validated_last hblock
    split at hstarted
    · rename_i happend
      subst hstarted
      obtain ⟨hkept, htargets⟩ := reset_kept config (batchStarted config _ block)
      refine ⟨{ hkept with }, .inl ⟨?_, ?_, ?_, htargets⟩⟩
      · rw [← h.inStep.numberOfBatches]
        exact hcloses
      · rintro b rfl
        have hmem := h.inStep.last_mem_next hblock b (List.mem_singleton_self b)
        rw [← hcompressed, ← List.mem_singleton.mp hmem]
        exact happend
      · refine (hadded _ _ _ hvalid).keep hcompressed ?_ ?_
        · rw [hlen, ← h.inStep.numberOfBatches]
        · rw [hlen, ← h.inStep.numberOfBatches]
          exact Nat.lt_of_not_le fun hle => hcloses (.inr (.inr (.inr (.inr hle))))
    · obtain ⟨hkept, htargets⟩ := fireBlob_kept hstarted
      refine ⟨{ hkept with }, .inr ⟨?_, ?_⟩⟩
      · refine (hadded _ _ _ hvalid).fire ?_ hfew hstarted
        have hyields := (yields_closeBatch config a hne t).2
        rw [← hcompressed] at hyields
        exact hyields
      · have hfork : t ≠ .hardFork := fun hfork => hcloses (.inr (.inr (.inr (.inl hfork))))
        rw [htargets, if_neg hfork]
        rfl

theorem fire_ok (htimes : Ordered s.received) (t : ConflationTrigger) :
    ∃ s', fireConflationAndResetState config s s.lastBlockNumber t = .ok s' := by
  obtain ⟨conflation, heq, hadded⟩ := batchAdded h hne t
  have hpending : (a.closeBatch hne t).pending ≠ [] := by simp [Layout.closeBatch]
  suffices hbatch : ∃ s', handleBatchTrigger config s (result ⟨a.current, hne, t⟩) = .ok s' by
    obtain ⟨s', hbatch⟩ := hbatch
    refine ⟨reset config s', ?_⟩
    rw [fire_eq h hne, hbatch]
    rfl
  by_cases hcloses : Closes config t (s.numberOfBatches + 1)
  · obtain ⟨s', hfire⟩ := (hadded _ _ _ h.inStep.validated).fire_ok hpending htimes
    exact ⟨s', (handleBatchTrigger_ok heq).mpr (.inl ⟨hcloses, hfire⟩)⟩
  · have hcounters : s.blobBlockCounters ≠ [] := by simp [h.inStep.blobBlockCounters, hne]
    obtain ⟨block, hblock⟩ : ∃ block, s.blobBlockCounters.getLast? = some block :=
      ⟨_, List.getLast?_eq_some_getLast hcounters⟩
    by_cases happend : config.blobCompressor.canAppendBlock
      (config.blobCompressor.startNewBatch s.compressorState) block.blockRLPEncoded
    · exact ⟨_, (handleBatchTrigger_ok heq).mpr
        (.inr ⟨hcloses, block, hblock, (if_pos happend).mpr rfl⟩)⟩
    · obtain ⟨s', hfire⟩ := (hadded s.targetEndBlockNumbers
        (config.blobCompressor.startNewBatch s.compressorState) _
        (h.inStep.validated_last hblock)).fire_ok hpending htimes
      refine ⟨s', (handleBatchTrigger_ok heq).mpr (.inr ⟨hcloses, block, hblock, ?_⟩)⟩
      rw [if_neg happend]
      exact hfire

end

end

end StatusNetwork.Coordinator.Conflation
