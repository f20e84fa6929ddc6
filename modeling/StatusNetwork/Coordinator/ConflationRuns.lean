import Mathlib.Data.List.ReduceOption
import StatusNetwork.Coordinator.ConflationLaws

/-!
# What becomes of a block

The calculators take the block that is next: they may close the open batch, with its blob or
without, and they append the block. `Taken` says all of that on the layout.
-/

namespace StatusNetwork.Coordinator.Conflation

-- Triggers

section
variable {config : Config M σ} {s s' : State M σ} {block : BlockCounters M}

/-- The calculator for the trigger gives it for this block. -/
def Trips (config : Config M σ) (s : State M σ) (block : BlockCounters M) :
    ConflationTrigger → Prop
  | .targetBlockNumber => blockBefore block.blockNumber ∈ s.targetEndBlockNumbers
  | .forcedTransaction =>
    block.blockNumber ∈ s.pendingTriggerBlocks ++ triggerBlocks s.processedFtxQueue
  | .hardFork => ∃ timestamp ∈ config.hardForkTimestamps,
    s.lastProcessedTimestamp < timestamp ∧ timestamp ≤ block.blockTimestamp
  | .dataLimit =>
    config.blobCompressor.canAppendBlock s.compressorState block.blockRLPEncoded = false
  | .tracesLimit => ¬ AllTracesWithinLimits
    (fun m => s.inprogressTracesCounters m + block.tracesCounters m) config.tracesCountersLimit
  | .timeLimit => False
  | .blocksLimit => ∃ l ∈ config.blocksLimit, l ≤ s.blockCount

/-- No trigger of higher priority is given. -/
structure First (config : Config M σ) (s : State M σ) (block : BlockCounters M)
    (t : ConflationTrigger) : Prop where
  trips : Trips config s block t
  first : ∀ u, Trips config s block u → t.triggerPriority ≤ u.triggerPriority

/-- The sums of the traces counters fit a `UInt`. -/
def Fits (s : State M σ) (block : BlockCounters M) : Prop :=
  ∀ m, s.inprogressTracesCounters m + block.tracesCounters m < 2 ^ 32

/-- The state after all calculators have been asked about the block. -/
def checked (s : State M σ) (block : BlockCounters M) : State M σ :=
  { s with
    lastValidatedBlock := some block.blockRLPEncoded
    pendingTriggerBlocks := s.pendingTriggerBlocks ++ triggerBlocks s.processedFtxQueue }

theorem checkTarget_some (config : Config M σ) (t : ConflationTrigger) :
    some t = checkTargetBlockNumbers s block ↔
      t = .targetBlockNumber ∧ Trips config s block .targetBlockNumber := by
  simp [checkTargetBlockNumbers, Trips, and_comm]

theorem checkData_some (t : ConflationTrigger) : some t = (checkData config s block).2 ↔
    t = .dataLimit ∧ Trips config s block .dataLimit := by
  simp [checkData, Trips, and_comm]

theorem checkBlockLimit_some (block : BlockCounters M) (t : ConflationTrigger) :
    some t = checkBlockLimit config s ↔ t = .blocksLimit ∧ Trips config s block .blocksLimit := by
  simp only [checkBlockLimit, Trips]
  cases config.blocksLimit <;> simp [and_comm]

theorem checkHardFork_some (t : ConflationTrigger) : some t = checkHardFork config s block ↔
    t = .hardFork ∧ Trips config s block .hardFork := by
  simp only [checkHardFork, Trips]
  cases hfind : config.hardForkTimestamps.find? fun timestamp =>
    s.lastProcessedTimestamp < timestamp ∧ block.blockTimestamp ≥ timestamp with
  | none => simpa using fun _ => List.find?_eq_none.mp hfind
  | some timestamp =>
    have hp := List.find?_some hfind
    simp only [decide_eq_true_eq] at hp
    simpa using fun _ => ⟨timestamp, List.mem_of_find?_eq_some hfind, hp⟩

theorem checkForced_some (config : Config M σ) (t : ConflationTrigger) :
    some t = (checkForcedTransaction s block).2 ↔
      t = .forcedTransaction ∧ Trips config s block .forcedTransaction := by
  simp [checkForcedTransaction, Trips, and_comm]

theorem firstTrigger_cases (triggers : List ConflationTrigger) :
    (firstTrigger triggers = none ∧ triggers = []) ∨
    ∃ t ∈ triggers, firstTrigger triggers = some t ∧
      ∀ u ∈ triggers, t.triggerPriority ≤ u.triggerPriority := by
  have hsorted := List.pairwise_insertionSort
    (fun t₁ t₂ : ConflationTrigger => t₁.triggerPriority ≤ t₂.triggerPriority) triggers
  have hmem (t : ConflationTrigger) := List.mem_insertionSort
    (fun t₁ t₂ : ConflationTrigger => t₁.triggerPriority ≤ t₂.triggerPriority) (x := t)
    (l := triggers)
  unfold firstTrigger
  cases hl : triggers.insertionSort fun t₁ t₂ => t₁.triggerPriority ≤ t₂.triggerPriority with
  | nil =>
    refine .inl ⟨rfl, List.eq_nil_iff_forall_not_mem.mpr fun t ht => ?_⟩
    rw [← hmem, hl] at ht
    cases ht
  | cons t rest =>
    rw [hl] at hsorted
    refine .inr ⟨t, (hmem t).mp (by simp [hl]), rfl, fun u hu => ?_⟩
    rw [← hmem, hl] at hu
    obtain rfl | hu := List.mem_cons.mp hu
    · exact Nat.le_refl _
    · exact List.rel_of_pairwise_cons hsorted hu

theorem appendData_ok : appendData config s block = .ok s' ↔
    s.lastValidatedBlock = some block.blockRLPEncoded ∧
    (config.blobCompressor.appendBlock s.compressorState block.blockRLPEncoded).1 = true ∧
    s' = { s with
      compressorState :=
        (config.blobCompressor.appendBlock s.compressorState block.blockRLPEncoded).2
      dataDrained := false } := by
  simp only [appendData, bind_eq_ok, failIf_eq_ok, ne_eq, not_not,
    Bool.not_eq_false, Except.ok.injEq]
  constructor
  · rintro ⟨_, hvalid, _, happended, rfl⟩
    exact ⟨hvalid, happended, rfl⟩
  · rintro ⟨hvalid, happended, rfl⟩
    exact ⟨(), hvalid, (), happended, rfl⟩

theorem appendBlockLimit_ok : appendBlockLimit config s = .ok s' ↔
    (∀ l ∈ config.blocksLimit, s.blockCount + 1 ≤ l) ∧
    s' = { s with blockCount := s.blockCount + 1 } := by
  simp only [appendBlockLimit, bind_eq_ok, failIf_eq_ok, not_exists, not_and,
    Nat.not_lt, Except.ok.injEq]
  constructor
  · rintro ⟨_, hlimit, rfl⟩
    exact ⟨hlimit, rfl⟩
  · rintro ⟨hlimit, rfl⟩
    exact ⟨(), hlimit, rfl⟩

variable [Fintype M]

theorem addTraces_ok {a b : M → Nat} : addTraces a b = .ok c ↔
    (∀ m, a m + b m < 2 ^ 32) ∧ c = fun m => a m + b m := by
  unfold addTraces
  split
  · rename_i hfits
    constructor
    · rintro ⟨⟩
      exact ⟨hfits, rfl⟩
    · rintro ⟨-, rfl⟩
      rfl
  · rename_i hfits
    exact ⟨nofun, fun h => absurd h.1 hfits⟩

theorem checkOverflow_fits (h : checkOverflow config s block = .ok p) : Fits s block := by
  obtain ⟨trigger, htraces, -⟩ := bind_eq_ok.mp h
  obtain ⟨counters, hadd, -⟩ := bind_eq_ok.mp htraces
  exact (addTraces_ok.mp hadd).1

theorem checkTraces_ok (config : Config M σ) (hfits : Fits s block) :
    ∃ trigger, checkTraces config s block = .ok trigger ∧
      ∀ t, some t = trigger ↔ t = .tracesLimit ∧ Trips config s block .tracesLimit := by
  simp only [checkTraces, addTraces_ok.mpr ⟨hfits, rfl⟩, ok_bind]
  split
  · refine ⟨none, rfl, fun t => ?_⟩
    simp [Trips, *]
  · refine ⟨some .tracesLimit, rfl, fun t => ?_⟩
    simp [Trips, *]

theorem checkOverflow_ok (config : Config M σ) (hfits : Fits s block) :
    ∃ triggers, checkOverflow config s block = .ok (checked s block, triggers) ∧
      ∀ t, t ∈ triggers ↔ Trips config s block t := by
  obtain ⟨traces, htraces, hsome⟩ := checkTraces_ok config hfits
  refine ⟨[traces, checkTargetBlockNumbers s block, (checkData config s block).2,
    checkBlockLimit config s, checkHardFork config s block,
    (checkForcedTransaction s block).2].reduceOption, ?_, fun t => ?_⟩
  · simp only [checkOverflow, htraces, ok_bind]
    rfl
  · simp only [List.reduceOption_mem_iff, List.mem_cons, List.not_mem_nil, or_false, hsome,
      checkTarget_some config, checkData_some, checkBlockLimit_some block, checkHardFork_some,
      checkForced_some config]
    cases t <;> simp
    simp [Trips]

-- Appending a block

theorem appendTraces_ok : appendTraces config s block = .ok s' ↔
    Fits s block ∧
    (¬ Trips config s block .tracesLimit ∨ ∀ m, s.inprogressTracesCounters m = 0) ∧
    s' = { s with
      inprogressTracesCounters := fun m =>
        s.inprogressTracesCounters m + block.tracesCounters m } := by
  simp only [appendTraces, bind_eq_ok, addTraces_ok, failIf_eq_ok, Fits, Trips,
    not_and_or, not_not, not_exists, Except.ok.injEq]
  constructor
  · rintro ⟨_, ⟨hfits, rfl⟩, _, hwithin, rfl⟩
    exact ⟨hfits, hwithin, rfl⟩
  · rintro ⟨hfits, hwithin, rfl⟩
    exact ⟨_, ⟨hfits, rfl⟩, (), hwithin, rfl⟩

def appendNext (config : Config M σ) (s : State M σ) (block : BlockCounters M) :
    Except ConflationError (State M σ) := do
  let s ← appendBlock config
    { s with startBlockNumber := some (s.startBlockNumber.getD block.blockNumber) } block
  .ok { s with lastBlockNumber := block.blockNumber }

def appended (config : Config M σ) (s : State M σ) (block : BlockCounters M) : State M σ :=
  { s with
    startBlockNumber := some (s.startBlockNumber.getD block.blockNumber)
    inprogressTracesCounters := fun m => s.inprogressTracesCounters m + block.tracesCounters m
    compressorState :=
      (config.blobCompressor.appendBlock s.compressorState block.blockRLPEncoded).2
    dataDrained := false
    blockCount := s.blockCount + 1
    lastProcessedTimestamp := block.blockTimestamp
    pendingTriggerBlocks := s.pendingTriggerBlocks.filter (· > block.blockNumber)
    lastBlockNumber := block.blockNumber }

theorem appendNext_ok : appendNext config s block = .ok s' ↔
    Fits s block ∧
    (¬ Trips config s block .tracesLimit ∨ ∀ m, s.inprogressTracesCounters m = 0) ∧
    s.lastValidatedBlock = some block.blockRLPEncoded ∧
    (config.blobCompressor.appendBlock s.compressorState block.blockRLPEncoded).1 = true ∧
    (∀ l ∈ config.blocksLimit, s.blockCount + 1 ≤ l) ∧ s' = appended config s block := by
  simp only [appendNext, appendBlock, bind_eq_ok, appendTraces_ok, appendData_ok,
    appendBlockLimit_ok, Except.ok.injEq]
  constructor
  · rintro ⟨_, ⟨_, ⟨hfits, hwithin, rfl⟩, _, ⟨hvalid, happended, rfl⟩, _, ⟨hlimit, rfl⟩, rfl⟩, rfl⟩
    exact ⟨hfits, hwithin, hvalid, happended, hlimit, rfl⟩
  · rintro ⟨hfits, hwithin, hvalid, happended, hlimit, rfl⟩
    exact ⟨_, ⟨_, ⟨hfits, hwithin, rfl⟩, _, ⟨hvalid, happended, rfl⟩, _, ⟨hlimit, rfl⟩, rfl⟩, rfl⟩

variable {a : Layout M} {first : Nat}

theorem Represents.append (h : Represents config first a [block] s)
    (hwithin : a.current = [] ∨ ¬ Trips config s block .tracesLimit)
    (hlimit : ∀ l ∈ config.blocksLimit, s.blockCount + 1 ≤ l) :
    Represents config first (a.append block) [] (appended config s block) := by
  refine ⟨{ h.outcome with },
    { h.chain with numbered := ?_, lastBlockNumber := ?_, received := ?_ }, ?_⟩
  · rw [blocks_append, List.append_nil]
    exact h.chain.numbered
  · rw [blocks_append, lastNumber, Tiling.last_append]
    rfl
  · rw [blocks_append, List.append_nil]
    exact h.chain.received
  · constructor
    · simp only [appended, Layout.append, h.inStep.startBlockNumber]
      cases a.current <;> rfl
    · rw [Layout.append, total_concat, ← h.inStep.traces]
      rfl
    · rw [Layout.append, appendAll_concat, ← h.inStep.compressed]
      rfl
    · rintro ⟨⟩
    · simp [appended, Layout.append, h.inStep.blockCount]
    · exact h.inStep.blobBatches
    · simpa [appended, Layout.append] using h.inStep.blobBlockCounters
    · exact h.inStep.numberOfBatches
    · rintro b ⟨⟩
    · exact h.inStep.fewBatches
    · refine fun _ => ⟨fun l hl => ?_, ?_⟩
      · simpa [Layout.append, h.inStep.blockCount] using hlimit l hl
      · obtain hnil | hwithin := hwithin
        · exact .inr (by simp [Layout.append, hnil])
        · refine .inl ?_
          rw [Layout.append, total_concat, ← h.inStep.traces]
          exact not_not.mp hwithin

theorem Represents.check (h : Represents config first a [] s)
    (hnumber : block.blockNumber = s.lastBlockNumber + 1)
    (hreceived : ∃ b, (b, block) ∈ s.received) :
    Represents config first a [block]
      (checked { s with blobBlockCounters := s.blobBlockCounters ++ [block] } block) := by
  refine ⟨{ h.outcome with }, { h.chain with numbered := ?_, received := ?_ },
    { h.inStep with blobBlockCounters := ?_, validated := ?_ }⟩
  · have hnumbered := h.chain.numbered
    rw [List.append_nil] at hnumbered
    refine hnumbered.append ⟨?_, Nat.le_refl _, trivial⟩
    rw [hnumber, h.chain.lastBlockNumber]
  · intro c hc
    obtain hc | hc := List.mem_append.mp hc
    · exact h.chain.received c (List.mem_append_left _ hc)
    · rw [List.mem_singleton.mp hc]
      exact hreceived
  · simp [checked, h.inStep.blobBlockCounters]
  · intro b hb
    rw [List.mem_singleton.mp hb]
    rfl

-- The block that is next

/-- A batch is closed first if one is open and some calculator gives a trigger. -/
theorem conflateBlock_eq (config : Config M σ) (hfits : Fits s block) :
    ((s.startBlockNumber = none ∨ ∀ t, ¬ Trips config s block t) ∧
      conflateBlock config s block = appendNext config (checked s block) block) ∨
    ∃ t, s.startBlockNumber ≠ none ∧ First config s block t ∧ conflateBlock config s block = (do
        let s₁ ← fireConflationAndResetState config (checked s block) s.lastBlockNumber t
        appendNext config s₁ block) := by
  obtain ⟨triggers, hcheck, hmem⟩ := checkOverflow_ok config hfits
  simp only [conflateBlock, hcheck, ok_bind]
  obtain ⟨hnone, rfl⟩ | ⟨t, ht, hsome, hfirst⟩ := firstTrigger_cases triggers
  · refine .inl ⟨.inr fun t ht => ?_, ?_⟩
    · exact List.not_mem_nil ((hmem t).mpr ht)
    · rfl
  · simp only [hsome]
    by_cases hs : (checked s block).startBlockNumber.isSome
    · rw [if_pos hs]
      refine .inr ⟨t, Option.isSome_iff_ne_none.mp hs, ?_, rfl⟩
      exact ⟨(hmem t).mp ht, fun u hu => hfirst u ((hmem u).mpr hu)⟩
    · rw [if_neg hs]
      exact .inl ⟨.inl (Option.not_isSome_iff_eq_none.mp hs), rfl⟩

/-- What becomes of the layout and of the target numbers with the block that is next. -/
inductive Conflated (config : Config M σ) (a : Layout M) (s : State M σ)
    (block : BlockCounters M) : Layout M → List Nat → Prop
  | appended (hnone : a.current = [] ∨ ∀ t, ¬ Trips config s block t)
      (htargets : targets = s.targetEndBlockNumbers) :
    Conflated config a s block (a.append block) targets
  | batchClosed (hne : a.current ≠ []) (hfirst : First config s block t)
      (hcloses : ¬ Closes config t (a.pending.length + 1))
      (htargets : targets = s.targetEndBlockNumbers) :
    Conflated config a s block ((a.closeBatch hne t).append block) targets
  | blobClosed (hne : a.current ≠ []) (hfirst : First config s block t)
      (htargets : targets = if t = .hardFork then s.lastBlockNumber :: s.targetEndBlockNumbers
        else s.targetEndBlockNumbers) :
    Conflated config a s block ((a.closeBatch hne t).closeBlob.append block) targets

/-- What the calculators do with the block that is next. -/
structure Taken (config : Config M σ) (first : Nat) (a : Layout M) (s : State M σ)
    (block : BlockCounters M) (a' : Layout M) (s' : State M σ) : Prop where
  conflated : Conflated config a s block a' s'.targetEndBlockNumbers
  represents : Represents config first a' [] s'
  processedFtxQueue : s'.processedFtxQueue = s.processedFtxQueue
  pendingTriggerBlocks : s'.pendingTriggerBlocks =
    (s.pendingTriggerBlocks ++ triggerBlocks s.processedFtxQueue).filter (· > block.blockNumber)
  lastProcessedTimestamp : s'.lastProcessedTimestamp = block.blockTimestamp
  lastBlockNumber : s'.lastBlockNumber = block.blockNumber
  received : s'.received = s.received
  blobs : s.blobs <+: s'.blobs

theorem InStep.startBlockNumber_ne_none (h : InStep config a next s) :
    s.startBlockNumber ≠ none ↔ a.current ≠ [] := by
  rw [h.startBlockNumber]
  cases a.current <;> simp

theorem calculatorNewBlock_taken (hlimit : 1 ≤ config.batchesLimit)
    (h : Represents config first a [] s) (hreceived : ∃ b, (b, block) ∈ s.received)
    (hok : calculatorNewBlock config s block = .ok s') :
    ∃ a', Taken config first a s block a' s' ∧ s'.blocksToConflate = s.blocksToConflate := by
  obtain ⟨_, hnumber, hok⟩ := bind_eq_ok.mp hok
  have hnumber : block.blockNumber = s.lastBlockNumber + 1 :=
    not_not.mp (failIf_eq_ok.mp hnumber)
  have hchecked := h.check hnumber hreceived
  have hfits : Fits { s with blobBlockCounters := s.blobBlockCounters ++ [block] } block := by
    obtain ⟨_, hcheck, -⟩ := bind_eq_ok.mp hok
    exact checkOverflow_fits hcheck
  obtain ⟨hnone, heq⟩ | ⟨t, hsome, hfirst, heq⟩ := conflateBlock_eq config hfits
  · rw [heq, appendNext_ok] at hok
    obtain ⟨-, -, -, -, hblocks, rfl⟩ := hok
    have hcurrent : a.current = [] ∨ ∀ t, ¬ Trips config s block t :=
      hnone.imp_left (not_iff_not.mp h.inStep.startBlockNumber_ne_none).mp
    refine ⟨a.append block, ⟨.appended hcurrent rfl, ?_, rfl, rfl, rfl, rfl, rfl,
      List.prefix_rfl⟩, rfl⟩
    exact hchecked.append (hcurrent.imp_right fun hnone => hnone .tracesLimit) hblocks
  · have hne : a.current ≠ [] := h.inStep.startBlockNumber_ne_none.mp hsome
    rw [heq, bind_eq_ok] at hok
    obtain ⟨s₁, hfire, hok⟩ := hok
    obtain ⟨-, -, -, -, hblocks, rfl⟩ := appendNext_ok.mp hok
    have hfirst : First config s block t := ⟨hfirst.trips, hfirst.first⟩
    obtain ⟨hkept, hclosed⟩ := fire_fired hchecked hne hlimit hfire
    obtain ⟨a', hconflated, hrep⟩ : ∃ a', Conflated config a s block a' s₁.targetEndBlockNumbers ∧
        Represents config first a' [] _ := by
      obtain ⟨hcloses, -, hrep, htargets⟩ | ⟨hrep, htargets⟩ := hclosed
      · exact ⟨_, .batchClosed hne hfirst hcloses htargets, hrep.append (.inl rfl) hblocks⟩
      · exact ⟨_, .blobClosed hne hfirst htargets, hrep.append (.inl rfl) hblocks⟩
    refine ⟨a', ⟨hconflated, hrep, hkept.processedFtxQueue, ?_, rfl, rfl, hkept.received,
      hkept.blobs⟩, hkept.blocksToConflate⟩
    exact congrArg (List.filter _) hkept.pendingTriggerBlocks

-- Nothing is thrown

/-- The compressor appends what it says it can append, and a block fits an empty blob. -/
structure BlobCompressor.Lawful (compressor : BlobCompressor σ) : Prop where
  appends : ∀ x block, (compressor.appendBlock x block).1 = compressor.canAppendBlock x block
  fits : ∀ block, compressor.canAppendBlock compressor.initial block = true

structure Config.Ok (config : Config M σ) : Prop where
  batchesLimit : 1 ≤ config.batchesLimit
  blocksLimit : ∀ l ∈ config.blocksLimit, 1 ≤ l
  tracesCountersLimit : ∀ m, config.tracesCountersLimit m < 2 ^ 31
  blobCompressor : config.blobCompressor.Lawful

/-- Sums of two traces counters fit a `UInt`, and timestamps are in order. -/
structure InBounds (received : List (Block × BlockCounters M)) : Prop where
  traces : ∀ p ∈ received, ∀ m, p.2.tracesCounters m < 2 ^ 31
  times : Ordered received

def Layout.Idle (a : Layout M) : Prop := a.current = [] → a.pending = []

theorem traces_lt (hc : config.Ok) (h : Represents config first a next s)
    (hbounds : InBounds s.received) (m : M) : s.inprogressTracesCounters m < 2 ^ 31 := by
  rw [h.inStep.traces]
  by_cases hne : a.current = []
  · simp [hne, total]
  · obtain hwithin | hlen := (h.inStep.within hne).tracesLimit
    · exact Nat.lt_of_le_of_lt (hwithin m) (hc.tracesCountersLimit m)
    · obtain ⟨c, hcurrent⟩ := List.length_eq_one_iff.mp hlen
      obtain ⟨b, hb⟩ := h.chain.received c (by simp [Layout.blocks, hcurrent])
      simpa [hcurrent, total] using hbounds.traces _ hb m

theorem appendNext_succeeds (hc : config.Ok) (h : Represents config first a [block] s)
    (hfits : Fits s block)
    (happend : config.blobCompressor.canAppendBlock s.compressorState block.blockRLPEncoded = true)
    (hnone : a.current = [] ∨
      ¬ Trips config s block .tracesLimit ∧ ¬ Trips config s block .blocksLimit) :
    ∃ s', appendNext config s block = .ok s' := by
  refine ⟨_, appendNext_ok.mpr ⟨hfits, ?_, h.inStep.validated block (by simp), ?_, ?_, rfl⟩⟩
  · obtain hnil | hnone := hnone
    · exact .inr fun m => by simp [h.inStep.traces, hnil, total]
    · exact .inl hnone.1
  · rw [hc.blobCompressor.appends, happend]
  · intro l hl
    obtain hnil | hnone := hnone
    · simpa [h.inStep.blockCount, hnil] using hc.blocksLimit l hl
    · exact Nat.lt_of_not_le fun hle => hnone.2 ⟨l, hl, hle⟩

theorem calculatorNewBlock_ok (hc : config.Ok) (h : Represents config first a [] s)
    (hidle : a.Idle) (hbounds : InBounds s.received)
    (hnumber : block.blockNumber = s.lastBlockNumber + 1)
    (hreceived : ∃ b, (b, block) ∈ s.received) :
    ∃ s', calculatorNewBlock config s block = .ok s' := by
  have hchecked := h.check hnumber hreceived
  obtain ⟨b, hb⟩ := hreceived
  have hblock : ∀ m, block.tracesCounters m < 2 ^ 31 := hbounds.traces _ hb
  have hfits : Fits { s with blobBlockCounters := s.blobBlockCounters ++ [block] } block := by
    intro m
    have htraces := traces_lt hc h hbounds m
    have hblock := hblock m
    dsimp only
    omega
  simp only [calculatorNewBlock, failIf_neg (not_not.mpr hnumber), ok_bind]
  obtain ⟨hnone, heq⟩ | ⟨t, hsome, hfirst, heq⟩ := conflateBlock_eq config hfits
  · rw [heq]
    have hcurrent : a.current = [] ∨ ∀ t, ¬ Trips config s block t :=
      hnone.imp_left (not_iff_not.mp h.inStep.startBlockNumber_ne_none).mp
    refine appendNext_succeeds hc hchecked hfits ?_
      (hcurrent.imp_right fun hnone => ⟨hnone .tracesLimit, hnone .blocksLimit⟩)
    obtain hnil | hnone := hcurrent
    · rw [hchecked.inStep.compressed, hnil, hidle hnil]
      exact hc.blobCompressor.fits _
    · exact (Bool.not_eq_false _).mp (hnone .dataLimit)
  · have hne : a.current ≠ [] := h.inStep.startBlockNumber_ne_none.mp hsome
    obtain ⟨s₁, hfire⟩ := fire_ok hchecked hne hbounds.times t
    have hfire' : fireConflationAndResetState config (checked
        { s with blobBlockCounters := s.blobBlockCounters ++ [block] } block) s.lastBlockNumber t =
        .ok s₁ := hfire
    simp only [heq, hfire', ok_bind]
    have hfits₁ {a' : Layout M} (hrep : Represents config first a' [block] s₁)
        (hnil : a'.current = []) : Fits s₁ block := by
      intro m
      have hblock := hblock m
      simp only [hrep.inStep.traces, hnil, total, List.map_nil, List.sum_nil]
      omega
    obtain ⟨-, ⟨-, happend, hrep, -⟩ | ⟨hrep, -⟩⟩ :=
      fire_fired hchecked hne hc.batchesLimit hfire
    · refine appendNext_succeeds hc hrep (hfits₁ hrep rfl) ?_ (.inl rfl)
      rw [hrep.inStep.compressed]
      exact happend block rfl
    · refine appendNext_succeeds hc hrep (hfits₁ hrep rfl) ?_ (.inl rfl)
      rw [hrep.inStep.compressed]
      exact hc.blobCompressor.fits _

end

end StatusNetwork.Coordinator.Conflation
