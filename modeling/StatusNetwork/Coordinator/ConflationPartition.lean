import StatusNetwork.Coordinator.ConflationRuns

/-!
# Conflation partitions the chain

The service brings the blocks into order and hands those that are next to the calculators. Over a
run, in whatever order the blocks arrive and whenever the deadline is reached, the conflations are
consecutive intervals with exactly their blocks, and the blobs are consecutive lists of conflations.
-/

namespace StatusNetwork.Coordinator.Conflation

theorem Conflated.current_ne_nil (h : Conflated config a s block a' targets) :
    a'.current ≠ [] := by
  cases h <;> simp [Layout.append]

theorem Conflated.blocks_eq (h : Conflated config a s block a' targets) :
    a'.blocks = a.blocks ++ [block] := by
  cases h <;> simp

section
variable [Fintype M] {config : Config M σ} {s s' : State M σ} {block : BlockCounters M}
variable {a a' : Layout M} {first : Nat} {J : Layout M → State M σ → Prop}
variable {K : State M σ → Prop}

-- What is kept

/-- The blocks that the calculators have not got yet wait in order. -/
structure Waiting (a : Layout M) (s : State M σ) : Prop where
  sorted : s.blocksToConflate.Pairwise (·.blockNumber < ·.blockNumber)
  beyond : ∀ c ∈ s.blocksToConflate, s.lastBlockNumber < c.blockNumber
  complete : ∀ p ∈ s.received, p.2 ∈ a.blocks ∨ p.2 ∈ s.blocksToConflate
  /-- Block numbers are `ULong`s. -/
  numbers : ∀ p ∈ s.received, p.2.blockNumber < 2 ^ 64

/-- A property of layouts that is kept by everything that happens, if `K` holds when blocks are
sent. -/
structure Stable (config : Config M σ) (first : Nat) (K : State M σ → Prop)
    (J : Layout M → State M σ → Prop) : Prop where
  received : ∀ {a s}, J a s → ∀ received blocksToConflate blocksInProgress,
    J a { s with
      received := received, blocksToConflate := blocksToConflate
      blocksInProgress := blocksInProgress }
  taken : ∀ {a s block a' s'}, Represents config first a [] s → J a s → K s →
    block.blockNumber < 2 ^ 64 → Taken config first a s block a' s' → J a' s' ∧ K s'
  timeLimit : ∀ {a s s'}, Represents config first a [] s → J a s → (hne : a.current ≠ []) →
    Represents config first (a.closeBatch hne .timeLimit).closeBlob [] s' → Kept s s' →
    s'.targetEndBlockNumbers = s.targetEndBlockNumbers →
    J (a.closeBatch hne .timeLimit).closeBlob s'
  queue : ∀ {a s}, J a s → ∀ processedFtxQueue,
    J a { s with processedFtxQueue := processedFtxQueue }

theorem Stable.and (h : Stable config first K J) (h' : Stable config first K J') :
    Stable config first K fun a s => J a s ∧ J' a s where
  received hJ _ _ _ := ⟨h.received hJ.1 _ _ _, h'.received hJ.2 _ _ _⟩
  taken hrep hJ hK hlt htaken := by
    obtain ⟨hJ₁, hK'⟩ := h.taken hrep hJ.1 hK hlt htaken
    exact ⟨⟨hJ₁, (h'.taken hrep hJ.2 hK hlt htaken).1⟩, hK'⟩
  timeLimit hrep hJ hne hrep' hkept htargets :=
    ⟨h.timeLimit hrep hJ.1 hne hrep' hkept htargets,
      h'.timeLimit hrep hJ.2 hne hrep' hkept htargets⟩
  queue hJ _ := ⟨h.queue hJ.1 _, h'.queue hJ.2 _⟩

structure Holds (config : Config M σ) (first : Nat) (J : Layout M → State M σ → Prop)
    (a : Layout M) (s : State M σ) : Prop where
  represents : Represents config first a [] s
  waiting : Waiting a s
  kept : J a s

theorem Taken.of_queue (h : Taken config first a { s with blocksToConflate := queue } block a' s') :
    Taken config first a s block a' s' := by
  refine { h with conflated := ?_ }
  cases h.conflated with
  | appended hnone htargets => exact .appended hnone htargets
  | batchClosed hne hfirst hcloses htargets =>
    exact .batchClosed hne ⟨hfirst.trips, hfirst.first⟩ hcloses htargets
  | blobClosed hne hfirst htargets => exact .blobClosed hne ⟨hfirst.trips, hfirst.first⟩ htargets

-- The service

theorem InStep.service (h : InStep config a next s) (received : List (Block × BlockCounters M))
    (blocksToConflate : List (BlockCounters M)) (blocksInProgress : List Block) :
    InStep config a next { s with
      received := received, blocksToConflate := blocksToConflate
      blocksInProgress := blocksInProgress } :=
  { h with }

theorem Represents.dequeue (h : Represents config first a [] s)
    (hqueue : s.blocksToConflate = block :: rest) :
    Represents config first a [] { s with blocksToConflate := rest } := by
  refine ⟨{ h.outcome with }, { h.chain with queued := fun c hc => h.chain.queued c ?_ },
    h.inStep.service s.received rest s.blocksInProgress⟩
  rw [hqueue]
  exact List.mem_cons_of_mem _ hc

omit [Fintype M] in
theorem Chain.lastBlockNumber_lt (h : Chain first a [] s) (hfirst : first < n)
    (hnew : n ∉ s.received.map (·.1.number)) : s.lastBlockNumber < n := by
  refine Nat.lt_of_not_le fun hle => hnew ?_
  have hnumbered := h.numbered
  rw [List.append_nil] at hnumbered
  rw [h.lastBlockNumber] at hle
  obtain ⟨c, hc, hle₁, hle₂⟩ := hnumbered.exists_mem hfirst hle
  obtain ⟨b, hb⟩ := h.received c (List.mem_append_left _ hc)
  rw [List.mem_map]
  exact ⟨(b, c), hb, (h.matching _ hb).trans (Nat.le_antisymm hle₁ hle₂)⟩

def arrived (s : State M σ) (block : Block) (blockCounters : BlockCounters M) : State M σ :=
  { s with
    received := s.received ++ [(block, blockCounters)]
    blocksToConflate := s.blocksToConflate.orderedInsert
      (fun b₁ b₂ => b₁.blockNumber ≤ b₂.blockNumber) blockCounters
    blocksInProgress := s.blocksInProgress ++ [block] }

theorem newBlock_eq (hmatch : b.number = block.blockNumber) (safe : Nat → Bool) :
    newBlock config s safe b block = sendBlocksInOrderToTracesCounter config safe
      (arrived s b block).blocksToConflate.length (arrived s b block) := by
  simp only [newBlock, failIf_neg (not_not.mpr hmatch), ok_bind]
  rfl

section
variable (hlimit : 1 ≤ config.batchesLimit) (hJ : Stable config first K J)
  (h : Holds config first J a s)
include hlimit hJ h

theorem Holds.next (hK : K s) (hqueue : s.blocksToConflate = block :: rest)
    (hok : calculatorNewBlock config { s with blocksToConflate := rest } block = .ok s') :
    ∃ a', Holds config first J a' s' ∧ K s' ∧ s'.blocksToConflate = rest ∧
      s'.received = s.received := by
  have hreceived := h.represents.chain.queued block (by simp [hqueue])
  have hnumber : block.blockNumber < 2 ^ 64 := by
    obtain ⟨b, hb⟩ := hreceived
    exact h.waiting.numbers _ hb
  obtain ⟨a', htaken, hrest⟩ :=
    calculatorNewBlock_taken hlimit (h.represents.dequeue hqueue) hreceived hok
  obtain ⟨hkept, hK'⟩ := hJ.taken h.represents h.kept hK hnumber htaken.of_queue
  have hsorted := h.waiting.sorted
  rw [hqueue, List.pairwise_cons] at hsorted
  refine ⟨a', ⟨htaken.represents, ⟨?_, ?_, ?_, ?_⟩, hkept⟩, hK', hrest, htaken.received⟩
  · rw [hrest]
    exact hsorted.2
  · intro c hc
    rw [hrest] at hc
    rw [htaken.lastBlockNumber]
    exact hsorted.1 c hc
  · intro p hp
    rw [htaken.received] at hp
    rw [htaken.conflated.blocks_eq, hrest, List.mem_append, List.mem_singleton]
    have hcomplete := h.waiting.complete p hp
    rw [hqueue, List.mem_cons] at hcomplete
    tauto
  · rw [htaken.received]
    exact h.waiting.numbers

/-- Arrivals are new blocks of the chain; a deadline finds a conflation that is not empty. -/
def Valid (first : Nat) (s : State M σ) : Action M → Prop
  | .newBlock _ block blockCounters => first < block.number ∧ block.number < 2 ^ 64 ∧
    block.number = blockCounters.blockNumber ∧ block.number ∉ s.received.map (·.1.number)
  | .timeLimit => s.startBlockNumber ≠ none
  | _ => True

omit hlimit in
theorem Holds.arrive (hfirst : first < b.number) (hlt : b.number < 2 ^ 64)
    (hmatch : b.number = c.blockNumber) (hnew : b.number ∉ s.received.map (·.1.number)) :
    Holds config first J a (arrived s b c) := by
  have hchain := h.represents.chain
  have hbeyond := hchain.lastBlockNumber_lt hfirst hnew
  have hmono {p : Block × BlockCounters M} (hp : p ∈ s.received) :
      p ∈ (arrived s b c).received := List.mem_append_left _ hp
  refine ⟨⟨⟨?_, h.represents.outcome.blobs, h.represents.outcome.within⟩, ?_, ?_⟩, ?_,
    hJ.received h.kept _ _ _⟩
  · refine h.represents.outcome.conflations.imp fun batch conflation hover => ?_
    refine ⟨hover.result, hover.numbers, fun block hblock => ?_⟩
    rw [arrived, List.map_append]
    exact List.mem_append_left _ (hover.received block hblock)
  · constructor
    · exact hchain.numbered
    · exact hchain.lastBlockNumber
    · exact fun d hd => (hchain.received d hd).imp fun _ => hmono
    · intro d hd
      obtain rfl | hd := (List.mem_orderedInsert _).mp hd
      · exact ⟨b, by simp [arrived]⟩
      · exact (hchain.queued d hd).imp fun _ => hmono
    · intro p hp
      obtain hp | hp := List.mem_append.mp hp
      · exact hchain.matching p hp
      · rw [List.mem_singleton.mp hp]
        exact hmatch
    · have hnodup := List.Nodup.concat hnew hchain.distinct
      simpa [arrived] using hnodup
    · have hnumbered := (Tiling.tiles_append.mp (Tiling.tiles_append.mp hchain.numbered).1).2
      have hle : lastNumber first a.handed ≤ lastNumber first a.blocks := by
        rw [Layout.blocks, lastNumber, Tiling.last_append]
        exact hnumbered.le_last
      have hhanded : lastNumber first a.handed < b.number := by
        rw [hchain.lastBlockNumber] at hbeyond
        exact Nat.lt_of_le_of_lt hle hbeyond
      simp [arrived, hchain.inProgress, hhanded]
  · exact h.represents.inStep.service _ _ _
  · refine ⟨?_, ?_, ?_, ?_⟩
    · have hne : (c :: s.blocksToConflate).Pairwise (·.blockNumber ≠ ·.blockNumber) := by
        refine List.pairwise_cons.mpr ⟨fun d hd heq => hnew ?_, h.waiting.sorted.imp Nat.ne_of_lt⟩
        obtain ⟨b', hb'⟩ := hchain.queued d hd
        rw [List.mem_map]
        exact ⟨_, hb', (hchain.matching _ hb').trans (heq.symm.trans hmatch.symm)⟩
      have hle := (h.waiting.sorted.imp Nat.le_of_lt).orderedInsert c
      refine (hle.and ((List.perm_orderedInsert _ _ _).pairwise_iff ?_ |>.mpr hne)).imp ?_
      · exact fun hxy => hxy.symm
      · exact fun hxy => Nat.lt_of_le_of_ne hxy.1 hxy.2
    · intro d hd
      obtain rfl | hd := (List.mem_orderedInsert _).mp hd
      · exact hmatch ▸ hbeyond
      · exact h.waiting.beyond d hd
    · intro p hp
      simp only [arrived, List.mem_orderedInsert]
      obtain hp | hp := List.mem_append.mp hp
      · exact (h.waiting.complete p hp).imp_right .inr
      · rw [List.mem_singleton.mp hp]
        exact .inr (.inl rfl)
    · intro p hp
      obtain hp | hp := List.mem_append.mp hp
      · exact h.waiting.numbers p hp
      · rw [List.mem_singleton.mp hp]
        exact hmatch ▸ hlt

/-- What is left waiting is not next, if nothing but its number can keep it waiting. -/
theorem Holds.send (hK : K s)
    (hok : sendBlocksInOrderToTracesCounter config safe n s = .ok s') :
    ∃ a', Holds config first J a' s' ∧ s'.received = s.received ∧
      (s.blocksToConflate.length ≤ n → (∀ k, safe k = true) →
        ∀ c ∈ s'.blocksToConflate, s'.lastBlockNumber + 1 < c.blockNumber) := by
  induction n generalizing a s with
  | zero =>
    cases hok
    refine ⟨a, h, rfl, fun hle _ c hc => ?_⟩
    rw [List.eq_nil_of_length_eq_zero (Nat.le_zero.mp hle)] at hc
    cases hc
  | succ n ih =>
    simp only [sendBlocksInOrderToTracesCounter] at hok
    cases hqueue : s.blocksToConflate with
    | nil =>
      rw [hqueue] at hok
      cases hok
      refine ⟨a, h, rfl, fun _ _ c hc => ?_⟩
      rw [hqueue] at hc
      cases hc
    | cons block rest =>
      simp only [hqueue] at hok
      split at hok
      · obtain ⟨s₁, hnew, hok⟩ := bind_eq_ok.mp hok
        obtain ⟨a₁, h₁, hK₁, hrest, hreceived⟩ := h.next hlimit hJ hK hqueue hnew
        obtain ⟨a', h', hreceived', hdone⟩ := ih h₁ hK₁ hok
        refine ⟨a', h', hreceived'.trans hreceived, fun hle => hdone ?_⟩
        rw [hrest]
        exact Nat.le_of_succ_le_succ hle
      · rename_i hnot
        cases hok
        refine ⟨a, h, rfl, fun _ hsafe c hc => ?_⟩
        have hsorted := h.waiting.sorted
        have hbeyond := h.waiting.beyond block (by simp [hqueue])
        rw [hqueue] at hc hsorted
        have hne : block.blockNumber ≠ s'.lastBlockNumber + 1 := fun heq => hnot ⟨heq, hsafe _⟩
        obtain rfl | hc := List.mem_cons.mp hc
        · omega
        · have hlt := (List.pairwise_cons.mp hsorted).1 c hc
          omega

omit hlimit in
theorem Holds.send_ok (hK : K s) (hc : config.Ok) (hidle : ∀ {a s}, J a s → a.Idle)
    (hbounds : InBounds s.received) :
    ∃ s', sendBlocksInOrderToTracesCounter config safe n s = .ok s' := by
  induction n generalizing a s with
  | zero => exact ⟨s, rfl⟩
  | succ n ih =>
    simp only [sendBlocksInOrderToTracesCounter]
    cases hqueue : s.blocksToConflate with
    | nil => exact ⟨s, rfl⟩
    | cons block rest =>
      dsimp only
      split
      · rename_i hnext
        have hrep := h.represents
        obtain ⟨s₁, hnew⟩ := calculatorNewBlock_ok hc (hrep.dequeue hqueue) (hidle h.kept) hbounds
          hnext.1 (hrep.chain.queued block (by simp [hqueue]))
        obtain ⟨a₁, h₁, hK₁, -, hreceived⟩ := h.next hc.batchesLimit hJ hK hqueue hnew
        simp only [hnew, ok_bind]
        exact ih h₁ hK₁ (hreceived ▸ hbounds)
      · exact ⟨s, rfl⟩

theorem Holds.timeLimit (hne : a.current ≠ [])
    (hok : handleConflationTrigger config s .timeLimit = .ok s') :
    Holds config first J (a.closeBatch hne .timeLimit).closeBlob s' := by
  obtain ⟨hkept, ⟨hcloses, -⟩ | ⟨hrep, htargets⟩⟩ := fire_fired h.represents hne hlimit hok
  · exact absurd (.inr (.inl rfl)) hcloses
  · have hlast : s'.lastBlockNumber = s.lastBlockNumber := by
      rw [hrep.chain.lastBlockNumber, h.represents.chain.lastBlockNumber, blocks_closeBlob,
        blocks_closeBatch]
    refine ⟨hrep, ⟨?_, ?_, ?_, ?_⟩, hJ.timeLimit h.represents h.kept hne hrep hkept htargets⟩
    · rw [hkept.blocksToConflate]
      exact h.waiting.sorted
    · rw [hkept.blocksToConflate, hlast]
      exact h.waiting.beyond
    · rw [hkept.blocksToConflate, hkept.received, blocks_closeBlob, blocks_closeBatch]
      exact h.waiting.complete
    · rw [hkept.received]
      exact h.waiting.numbers

omit hlimit in
theorem Holds.queue (queue : List ForcedTransactionInclusionStatus) :
    Holds config first J a { s with processedFtxQueue := queue } := by
  obtain ⟨houtcome, hchain, hstep⟩ := h.represents
  exact ⟨⟨{ houtcome with }, { hchain with }, { hstep with }⟩, { h.waiting with },
    hJ.queue h.kept queue⟩

def arrivals : Action M → List (Block × BlockCounters M)
  | .newBlock _ block blockCounters => [(block, blockCounters)]
  | .timeLimit | .addProcessedFtx _ | .consumeProcessedFtxs => []

/-- What holds when a new block has arrived and before blocks are sent. -/
def OnArrival (K : State M σ → Prop) (s : State M σ) : Action M → Prop
  | .newBlock _ block blockCounters => K (arrived s block blockCounters)
  | .timeLimit | .addProcessedFtx _ | .consumeProcessedFtxs => True

theorem step_holds (hv : Valid first s action) (hK : OnArrival K s action)
    (hok : step config s action = .ok s') :
    ∃ a', Holds config first J a' s' ∧ s'.received = s.received ++ arrivals action := by
  cases action with
  | newBlock safe b c =>
    obtain ⟨hfirst, hlt, hmatch, hnew⟩ := hv
    rw [step, newBlock_eq hmatch] at hok
    obtain ⟨a', h', hreceived, -⟩ := (h.arrive hJ hfirst hlt hmatch hnew).send hlimit hJ hK hok
    exact ⟨a', h', hreceived⟩
  | timeLimit =>
    have hne := h.represents.inStep.startBlockNumber_ne_none.mp hv
    refine ⟨_, h.timeLimit hlimit hJ hne hok, ?_⟩
    rw [arrivals, List.append_nil]
    exact (fire_fired h.represents hne hlimit hok).kept.received
  | addProcessedFtx ftx | consumeProcessedFtxs =>
    cases hok
    exact ⟨a, h.queue hJ _, (List.append_nil _).symm⟩

end

theorem initial_represents (config : Config M σ) (first ts : Nat) (targets : List Nat) :
    Represents config first ⟨[], [], []⟩ [] (initial config first ts targets) := by
  refine ⟨⟨.nil, .nil, nofun⟩, ⟨trivial, rfl, nofun, nofun, nofun, .nil, rfl⟩, ?_⟩
  exact ⟨rfl, rfl, rfl, nofun, rfl, rfl, rfl, rfl, nofun, nofun, nofun⟩

/-- The actions are those that `ok` allows. -/
abbrev Reaches (config : Config M σ) (first ts : Nat) (targets : List Nat)
    (ok : State M σ → Action M → Prop) : State M σ → Prop :=
  Interleaving.Reaches (fun s action => (step config s action).toOption) ok
    (initial config first ts targets)

-- The partition

theorem stable_idle (config : Config M σ) (first : Nat) :
    Stable config first (fun _ => True) fun a _ => a.Idle where
  received := fun h _ _ _ => h
  taken := by
    rintro a s block a' s' - - - - htaken
    exact ⟨fun hnil => absurd hnil htaken.conflated.current_ne_nil, trivial⟩
  timeLimit := fun _ _ _ _ _ _ _ => rfl
  queue := fun h _ => h

/-- An action with which the blocks that have arrived are still in bounds. -/
def Regular (first : Nat) (s : State M σ) (action : Action M) : Prop :=
  Valid first s action ∧ InBounds (s.received ++ arrivals action)

theorem reaches_idle (hc : config.Ok) (h : Reaches config first ts targets (Regular first) s) :
    (∃ a, Holds config first (fun a _ => a.Idle) a s) ∧ InBounds s.received := by
  have hwaiting : Waiting ⟨[], [], []⟩ (initial config first ts targets) :=
    ⟨.nil, nofun, nofun, nofun⟩
  refine h.invariant (I := fun s => (∃ a, Holds config first (fun a _ => a.Idle) a s) ∧
    InBounds s.received)
    ⟨⟨_, initial_represents config first ts targets, hwaiting, fun _ => rfl⟩, nofun, nofun⟩ ?_
  rintro s action s' ⟨⟨a, h⟩, -⟩ ⟨hv, hbounds⟩ hs
  obtain ⟨a', h', hreceived⟩ := step_holds hc.batchesLimit (stable_idle config first) h hv
    (by cases action <;> trivial) (Except.toOption_eq_some.mp hs)
  exact ⟨⟨a', h'⟩, hreceived ▸ hbounds⟩

/-- The received blocks in order, cut into batches and blobs, are what was handed over. -/
structure Partition (config : Config M σ) (first : Nat) (a : Layout M) (s : State M σ) : Prop
    extends Outcome config a s where
  numbered : Numbered first a.blocks
  received : ∀ c ∈ a.blocks, ∃ b, (b, c) ∈ s.received
  complete : ∀ p ∈ s.received, p.2 ∈ a.blocks ∨ p.2 ∈ s.blocksToConflate

omit [Fintype M] in
theorem results_eq {batches : List (Batch M)}
    (h : List.Forall₂ (HandedOver received) batches conflations) :
    conflations.map (·.conflationResult) = batches.map Batch.result := by
  induction h with
  | nil => rfl
  | cons hover _ ih => rw [List.map_cons, List.map_cons, hover.result, ih]

omit [Fintype M] in
theorem blobs_eq (h : List.Forall₂ (BlobOf config) closed blobs) :
    blobs.flatMap (·.conflations) = closed.flatten.map Batch.result := by
  induction h with
  | nil => rfl
  | cons hblob _ ih =>
    rw [List.flatMap_cons, List.flatten_cons, List.map_append, hblob.conflations, ih]

omit [Fintype M] in
theorem tiles_results {batches : List (Batch M)} (h : Numbered n (batches.flatMap (·.blocks))) :
    Tiling.Tiles ConflationCalculationResult.startBlockNumber
      ConflationCalculationResult.endBlockNumber n (batches.map Batch.result) := by
  induction batches generalizing n with
  | nil => trivial
  | cons batch batches ih =>
    obtain ⟨hbatch, hrest⟩ := Tiling.tiles_append.mp h
    have hstart := result_start (l := []) batch hbatch
    have hend := result_end batch n
    refine ⟨hstart, ?_, ?_⟩
    · exact hbatch.hi_le_last (List.head_mem batch.nonempty) |>.trans (Nat.le_of_eq hend.symm)
    · rw [hend]
      exact ih hrest

theorem step_ok (hc : config.Ok) (h : Holds config first (fun a _ => a.Idle) a s)
    (hr : Regular first s action) : ∃ s', step config s action = .ok s' := by
  obtain ⟨hv, hbounds⟩ := hr
  cases action with
  | newBlock safe b c =>
    obtain ⟨hfirst, hlt, hmatch, hnew⟩ := hv
    rw [step, newBlock_eq hmatch]
    exact (h.arrive (stable_idle config first) hfirst hlt hmatch hnew).send_ok
      (stable_idle config first) trivial hc id hbounds
  | timeLimit =>
    have hne := h.represents.inStep.startBlockNumber_ne_none.mp hv
    rw [arrivals, List.append_nil] at hbounds
    exact fire_ok h.represents hne hbounds.times _
  | addProcessedFtx ftx | consumeProcessedFtxs => exact ⟨_, rfl⟩

/-- The conflations are consecutive intervals from the first block on, each handed over with exactly
its blocks in order and within the limits; the blobs are consecutive lists of conflations with the
data of their blocks. Nothing is thrown, and a block waits only for those before it. -/
theorem conflation_partitions (hc : config.Ok)
    (h : Reaches config first ts targets (Regular first) s) :
    (∃ a : Layout M, Partition config first a s) ∧
    Tiling.Tiles ConflationCalculationResult.startBlockNumber
      ConflationCalculationResult.endBlockNumber first (s.conflations.map (·.conflationResult)) ∧
    (∃ rest, s.conflations.map (·.conflationResult) = s.blobs.flatMap (·.conflations) ++ rest) ∧
    ∀ action, Regular first s action → ∃ s', step config s action = .ok s' ∧
      ∀ safe b c, action = .newBlock safe b c → (∀ k, safe k = true) →
        ∀ c ∈ s'.blocksToConflate, s'.lastBlockNumber + 1 < c.blockNumber := by
  obtain ⟨⟨a, h⟩, -⟩ := reaches_idle hc h
  have hrep := h.represents
  have hnumbered := hrep.chain.numbered
  rw [List.append_nil] at hnumbered
  have hresults := results_eq hrep.outcome.conflations
  refine ⟨⟨a, ⟨hrep.outcome, hnumbered, ?_, h.waiting.complete⟩⟩, ?_, ?_, ?_⟩
  · exact fun c hmem => hrep.chain.received c (List.mem_append_left _ hmem)
  · rw [hresults]
    exact tiles_results (Tiling.tiles_append.mp hnumbered).1
  · refine ⟨a.pending.map Batch.result, ?_⟩
    rw [hresults, Layout.batches, List.map_append, blobs_eq hrep.outcome.blobs]
  · intro action hr
    obtain ⟨s', hs'⟩ := step_ok hc h hr
    refine ⟨s', hs', ?_⟩
    rintro safe b c rfl hsafe
    obtain ⟨hfirst, hlt, hmatch, hnew⟩ := hr.1
    rw [step, newBlock_eq hmatch] at hs'
    have harrived := h.arrive (stable_idle config first) hfirst hlt hmatch hnew
    obtain ⟨a', -, -, hdone⟩ :=
      harrived.send hc.batchesLimit (stable_idle config first) trivial hs'
    exact hdone (Nat.le_refl _) hsafe

end

-- Some runs

section
variable {first : Nat} {s : State M σ} {action : Action M}

instance : Decidable (Valid first s action) := by
  unfold Valid
  split <;> infer_instance

instance {received : List (Block × BlockCounters M)} : Decidable (Ordered received) :=
  inferInstanceAs (Decidable (∀ p ∈ received, _))

instance [Fintype M] {received : List (Block × BlockCounters M)} : Decidable (InBounds received) :=
  decidable_of_iff ((∀ p ∈ received, ∀ m, p.2.tracesCounters m < 2 ^ 31) ∧ Ordered received)
    ⟨fun h => ⟨h.1, h.2⟩, fun h => ⟨h.1, h.2⟩⟩

instance [Fintype M] : Decidable (Regular first s action) :=
  inferInstanceAs (Decidable (_ ∧ _))

end

def fourBytes : BlobCompressor Bytes where
  initial := []
  canAppendBlock x block := x = [] ∨ x.length + block.length ≤ 4
  appendBlock x block :=
    if x = [] ∨ x.length + block.length ≤ 4 then (true, x ++ block) else (false, x)
  startNewBatch x := x
  getCompressedData x := x

theorem fourBytes_lawful : fourBytes.Lawful where
  appends x block := by
    simp only [fourBytes]
    split <;> simp [*]
  fits block := by simp [fourBytes]

def smallConfig : Config Unit Bytes where
  tracesCountersLimit := fun _ => 10
  blocksLimit := some 3
  batchesLimit := 3
  hardForkTimestamps := [100]
  blobCompressor := fourBytes

theorem smallConfig_ok : smallConfig.Ok where
  batchesLimit := by decide
  blocksLimit := by simp [smallConfig]
  tracesCountersLimit := by simp [smallConfig]
  blobCompressor := fourBytes_lawful

def arrival (number timestamp traces : Nat) : Action Unit :=
  .newBlock (fun _ => true) ⟨number, []⟩ ⟨number, timestamp, fun _ => traces, [number.toUInt8]⟩

def severalTriggers : List (Action Unit) :=
  [arrival 2 20 1, arrival 1 10 1, arrival 3 30 1, arrival 4 40 6, arrival 5 50 6, .timeLimit,
    arrival 7 110 1, arrival 6 60 20]

def handedOver (s : State Unit Bytes) : List (Nat × Nat × List Nat) × List Bytes :=
  (s.conflations.map fun c => (c.conflationResult.startBlockNumber,
    c.conflationResult.endBlockNumber, c.blocks.map (·.number)), s.blobs.map (·.compressedData))

theorem conflation_partitions_severalTriggers :
    ∃ s : State Unit Bytes,
      handedOver s = ([(1, 3, [1, 2, 3]), (4, 4, [4]), (5, 5, [5]), (6, 6, [6])],
        [[1, 2, 3, 4], [5], [6]]) ∧ ∃ a, Partition smallConfig 0 a s := by
  obtain ⟨s, hs, hobs⟩ : ∃ s, Reaches smallConfig 0 0 [] (Regular 0) s ∧
      handedOver s = ([(1, 3, [1, 2, 3]), (4, 4, [4]), (5, 5, [5]), (6, 6, [6])],
        [[1, 2, 3, 4], [5], [6]]) :=
    Interleaving.exists_reaches severalTriggers _ (by decide +kernel)
  exact ⟨s, hobs, (conflation_partitions smallConfig_ok hs).1⟩

/-- The second block is older than the first one, or its traces counter does not fit with that of
the first one. -/
theorem exists_exception :
    (∃ s, Reaches smallConfig 0 0 [] (Valid 0) s ∧ Valid 0 s .timeLimit ∧
      step smallConfig s .timeLimit = .error .endBlockTimePredatesStart) ∧
    ∃ s, Reaches smallConfig 0 0 [] (Valid 0) s ∧ Valid 0 s (arrival 2 20 1) ∧
      step smallConfig s (arrival 2 20 1) = .error .tracesCountersOverflow := by
  constructor
  · obtain ⟨s, hs, hobs⟩ : ∃ s, Reaches smallConfig 0 0 [] (Valid 0) s ∧
        (decide (Valid 0 s .timeLimit), (step smallConfig s .timeLimit).thrown) =
          (true, some .endBlockTimePredatesStart) :=
      Interleaving.exists_reaches [arrival 1 10 1, arrival 2 5 1] _ (by decide +kernel)
    obtain ⟨hv, hthrown⟩ := Prod.mk.inj hobs
    exact ⟨s, hs, of_decide_eq_true hv, Except.thrown_eq_some.mp hthrown⟩
  · obtain ⟨s, hs, hobs⟩ : ∃ s, Reaches smallConfig 0 0 [] (Valid 0) s ∧
        (decide (Valid 0 s (arrival 2 20 1)), (step smallConfig s (arrival 2 20 1)).thrown) =
          (true, some .tracesCountersOverflow) :=
      Interleaving.exists_reaches [arrival 1 10 (2 ^ 32 - 1)] _ (by decide +kernel)
    obtain ⟨hv, hthrown⟩ := Prod.mk.inj hobs
    exact ⟨s, hs, of_decide_eq_true hv, Except.thrown_eq_some.mp hthrown⟩

end StatusNetwork.Coordinator.Conflation
