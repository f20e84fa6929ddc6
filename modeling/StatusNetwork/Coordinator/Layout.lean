import StatusNetwork.Base.Tiling
import StatusNetwork.Coordinator.Conflation

/-!
# How the blocks are laid out

What conflation is for: the chain is cut into batches, and these are put into blobs. A `Layout` has
the blobs that are closed, the batches of the blob that is open and the blocks of the batch that is
open. `Outcome` says what has been handed over for a layout, `InStep` what the calculators hold.
-/

namespace StatusNetwork.Coordinator.Conflation

abbrev Numbered : Nat → List (BlockCounters M) → Prop :=
  Tiling.Tiles BlockCounters.blockNumber BlockCounters.blockNumber

abbrev lastNumber : Nat → List (BlockCounters M) → Nat := Tiling.last BlockCounters.blockNumber

def total (blocks : List (BlockCounters M)) : M → Nat :=
  fun m => (blocks.map (·.tracesCounters m)).sum

structure Batch (M : Type) where
  blocks : List (BlockCounters M)
  nonempty : blocks ≠ []
  trigger : ConflationTrigger

def Batch.result (b : Batch M) : ConflationCalculationResult M where
  startBlockNumber := (b.blocks.head b.nonempty).blockNumber
  endBlockNumber := (b.blocks.getLast b.nonempty).blockNumber
  conflationTrigger := b.trigger
  tracesCounters := total b.blocks

structure Layout (M : Type) where
  closed : List (List (Batch M))
  pending : List (Batch M)
  current : List (BlockCounters M)

def Layout.batches (a : Layout M) : List (Batch M) := a.closed.flatten ++ a.pending

def Layout.handed (a : Layout M) : List (BlockCounters M) := a.batches.flatMap (·.blocks)

def Layout.blocks (a : Layout M) : List (BlockCounters M) := a.handed ++ a.current

-- What the compressor yields

section
variable (compressor : BlobCompressor σ)

def appendAll (x : σ) (blocks : List (BlockCounters M)) : σ :=
  blocks.foldl (fun x block => (compressor.appendBlock x block.blockRLPEncoded).2) x

/-- Batch by batch, a new batch being started after each. -/
def afterBatches (batches : List (Batch M)) : σ :=
  batches.foldl (fun x batch => compressor.startNewBatch (appendAll compressor x batch.blocks))
    compressor.initial

@[simp] theorem appendAll_concat (x : σ) (blocks : List (BlockCounters M)) (b : BlockCounters M) :
    appendAll compressor x (blocks ++ [b]) =
      (compressor.appendBlock (appendAll compressor x blocks) b.blockRLPEncoded).2 := by
  simp [appendAll]

@[simp] theorem afterBatches_concat (batches : List (Batch M)) (b : Batch M) :
    afterBatches compressor (batches ++ [b]) =
      compressor.startNewBatch
        (appendAll compressor (afterBatches compressor batches) b.blocks) := by
  simp [afterBatches]

/-- The data of the blocks of these batches and no others; the compressor may have been told that
another batch starts. -/
def Yields (batches : List (Batch M)) (data : Bytes) : Prop :=
  ∃ before last, batches = before ++ [last] ∧
    (data = compressor.getCompressedData
        (appendAll compressor (afterBatches compressor before) last.blocks) ∨
      data = compressor.getCompressedData (afterBatches compressor batches))

end

-- What has been handed over

structure Within [Fintype M] (config : Config M σ) (blocks : List (BlockCounters M)) : Prop where
  blocksLimit : ∀ l ∈ config.blocksLimit, blocks.length ≤ l
  tracesLimit : AllTracesWithinLimits (total blocks) config.tracesCountersLimit ∨ blocks.length = 1

/-- The conflation of a batch, with exactly its blocks in order. -/
structure HandedOver (received : List (Block × BlockCounters M)) (batch : Batch M)
    (conflation : BlocksConflation M) : Prop where
  result : conflation.conflationResult = batch.result
  numbers : conflation.blocks.map (·.number) = batch.blocks.map (·.blockNumber)
  received : ∀ block ∈ conflation.blocks, block ∈ received.map Prod.fst

structure BlobOf (config : Config M σ) (batches : List (Batch M)) (blob : Blob M) : Prop where
  conflations : blob.conflations = batches.map Batch.result
  fewBatches : batches.length ≤ config.batchesLimit
  data : Yields config.blobCompressor batches blob.compressedData

structure Outcome [Fintype M] (config : Config M σ) (a : Layout M) (s : State M σ) : Prop where
  conflations : List.Forall₂ (HandedOver s.received) a.batches s.conflations
  blobs : List.Forall₂ (BlobOf config) a.closed s.blobs
  within : ∀ batch ∈ a.batches, Within config batch.blocks

structure Chain (first : Nat) (a : Layout M) (next : List (BlockCounters M)) (s : State M σ) :
    Prop where
  numbered : Numbered first (a.blocks ++ next)
  lastBlockNumber : s.lastBlockNumber = lastNumber first a.blocks
  received : ∀ c ∈ a.blocks ++ next, ∃ b, (b, c) ∈ s.received
  queued : ∀ c ∈ s.blocksToConflate, ∃ b, (b, c) ∈ s.received
  matching : ∀ p ∈ s.received, p.1.number = p.2.blockNumber
  distinct : (s.received.map (·.1.number)).Nodup
  inProgress : s.blocksInProgress =
    (s.received.map Prod.fst).filter (lastNumber first a.handed < ·.number)

/-- The state of the calculators, with the blocks that are `next` to be appended. -/
structure InStep [Fintype M] (config : Config M σ) (a : Layout M) (next : List (BlockCounters M))
    (s : State M σ) : Prop where
  startBlockNumber : s.startBlockNumber = a.current.head?.map (·.blockNumber)
  traces : s.inprogressTracesCounters = total a.current
  compressed : s.compressorState =
    appendAll config.blobCompressor (afterBatches config.blobCompressor a.pending) a.current
  drained : s.dataDrained = true → a.pending = [] ∧ a.current = []
  blockCount : s.blockCount = a.current.length
  blobBatches : s.blobBatches = a.pending.map Batch.result
  blobBlockCounters : s.blobBlockCounters = a.pending.flatMap (·.blocks) ++ (a.current ++ next)
  numberOfBatches : s.numberOfBatches = a.pending.length
  validated : ∀ b ∈ next, s.lastValidatedBlock = some b.blockRLPEncoded
  fewBatches : a.pending ≠ [] → a.pending.length < config.batchesLimit
  within : a.current ≠ [] → Within config a.current

structure Represents [Fintype M] (config : Config M σ) (first : Nat) (a : Layout M)
    (next : List (BlockCounters M)) (s : State M σ) : Prop where
  outcome : Outcome config a s
  chain : Chain first a next s
  inStep : InStep config a next s

-- Batches in a numbered chain

theorem total_concat (blocks : List (BlockCounters M)) (b : BlockCounters M) :
    total (blocks ++ [b]) = fun m => total blocks m + b.tracesCounters m := by
  funext m
  simp [total]

theorem result_start (batch : Batch M) (h : Numbered n (l ++ batch.blocks)) :
    batch.result.startBlockNumber = lastNumber n l + 1 := by
  obtain ⟨b, hb, hnumber⟩ := (Tiling.tiles_append.mp h).2.head?_eq batch.nonempty
  rw [List.head?_eq_some_head batch.nonempty] at hb
  cases hb
  exact hnumber

theorem result_end (batch : Batch M) (n : Nat) :
    batch.result.endBlockNumber = lastNumber n batch.blocks := by
  obtain ⟨b, hb, hnumber⟩ : ∃ b, batch.blocks.getLast? = some b ∧
      b.blockNumber = lastNumber n batch.blocks := Tiling.getLast?_eq batch.nonempty
  rw [List.getLast?_eq_some_getLast batch.nonempty] at hb
  cases hb
  exact hnumber

section
variable (batch : Batch M) (h : Numbered n (l ++ batch.blocks ++ m))
include h

theorem result_contains :
    batch.result.contains k = true ↔ lastNumber n l < k ∧ k ≤ lastNumber n (l ++ batch.blocks) := by
  have hl := (Tiling.tiles_append.mp h).1
  simp only [ConflationCalculationResult.contains, decide_eq_true_eq, result_start batch hl,
    result_end batch (lastNumber n l), lastNumber, Tiling.last_append]
  omega

theorem contains_of_mem (hb : b ∈ batch.blocks) : batch.result.contains b.blockNumber = true := by
  have hbatch := (Tiling.tiles_append.mp (Tiling.tiles_append.mp h).1).2
  rw [result_contains batch h, lastNumber, Tiling.last_append]
  exact ⟨hbatch.lt_lo hb, hbatch.hi_le_last hb⟩

theorem not_contains_of_lt (hk : lastNumber n (l ++ batch.blocks ++ m) < k) :
    batch.result.contains k = false := by
  have hle := (Tiling.tiles_append.mp h).2.le_last
  rw [← Tiling.last_append] at hle
  rw [Bool.eq_false_iff, Ne, result_contains batch h]
  exact fun hcontains => Nat.lt_irrefl _ (Nat.lt_of_le_of_lt (Nat.le_trans hcontains.2 hle) hk)

end

end StatusNetwork.Coordinator.Conflation
