import StatusNetwork.Coordinator.ConflationPartition

/-!
# Where batches and blobs must end

A target block is never inside a blob, only at its end. The block before a hard fork becomes a
target block, unless no batch is open when the first block after the fork comes, or a forced
transaction asks for an end there, whose trigger has the higher priority.
-/

namespace StatusNetwork.Coordinator.Conflation

-- Seams

/-- The block `t` does not part the blocks: none or all of them come after it. -/
def Seam (t : Nat) (blocks : List (BlockCounters M)) : Prop :=
  ∀ x ∈ blocks, ∀ y ∈ blocks, x.blockNumber ≤ t → y.blockNumber ≤ t

section
variable {l : List (BlockCounters M)}

theorem seam_of_le (h : ∀ x ∈ l, x.blockNumber ≤ t) : Seam t l := fun _ _ y hy _ => h y hy

theorem seam_singleton (b : BlockCounters M) : Seam t [b] := by
  simp [Seam]

theorem Seam.not_inside (h : Seam t l) (hx : x ∈ l) (hy : y ∈ l) :
    ¬ (x.blockNumber ≤ t ∧ t < y.blockNumber) :=
  fun hxy => Nat.not_lt_of_ge (h x hx y hy hxy.1) hxy.2

theorem Seam.concat (h : Seam t l) (hl : Numbered n (l ++ [b]))
    (hlast : l ≠ [] → t ≠ lastNumber n l) : Seam t (l ++ [b]) := by
  obtain ⟨hbefore, hb, -⟩ := Tiling.tiles_append.mp hl
  have hle {x : BlockCounters M} (hx : x ∈ l) : x.blockNumber ≤ lastNumber n l :=
    hbefore.hi_le_last hx
  have hb : b.blockNumber = lastNumber n l + 1 := hb
  intro x hx y hy hxt
  obtain hx | hx := List.mem_append.mp hx
  · have hne := List.ne_nil_of_mem hx
    obtain ⟨z, hz, hzn⟩ : ∃ z, l.getLast? = some z ∧ z.blockNumber = lastNumber n l :=
      Tiling.getLast?_eq hne
    have hzt := h x hx z (List.mem_of_getLast? hz) hxt
    obtain hy | hy := List.mem_append.mp hy
    · exact h x hx y hy hxt
    · have := hlast hne
      rw [List.mem_singleton.mp hy]
      omega
  · rw [List.mem_singleton.mp hx] at hxt
    obtain hy | hy := List.mem_append.mp hy
    · have := hle hy
      omega
    · rwa [List.mem_singleton.mp hy]

end

def Crosses (hardForkTimestamps : List Nat) (x y : BlockCounters M) : Prop :=
  ∃ timestamp ∈ hardForkTimestamps, x.blockTimestamp < timestamp ∧ timestamp ≤ y.blockTimestamp

instance {forks : List Nat} {x y : BlockCounters M} : Decidable (Crosses forks x y) :=
  inferInstanceAs (Decidable (∃ timestamp ∈ forks, _))

def Layout.openBlocks (a : Layout M) : List (BlockCounters M) :=
  a.pending.flatMap (·.blocks) ++ a.current

structure Seams (a : Layout M) (s : State M σ) : Prop where
  idle : a.Idle
  timestamp : ∀ x ∈ a.blocks.getLast?, s.lastProcessedTimestamp = x.blockTimestamp
  closed : ∀ t ∈ s.targetEndBlockNumbers, ∀ batches ∈ a.closed, Seam t (batches.flatMap (·.blocks))
  openBlob : ∀ t ∈ s.targetEndBlockNumbers, Seam t a.openBlocks

/-- Every block before a fork is a target block. -/
structure Marked (config : Config M σ) (a : Layout M) (s : State M σ) : Prop
    extends Seams a s where
  forks : ∀ {l x y r}, a.blocks = l ++ x :: y :: r → Crosses config.hardForkTimestamps x y →
    x.blockNumber ∈ s.targetEndBlockNumbers

/-- The first block after a fork that was not taken yet comes after a target block, or no forced
transaction asks for an end there and, if it is next, a batch is open. -/
def ForksClear (config : Config M σ) (s : State M σ) : Prop :=
  ∀ p ∈ s.received, ∀ q ∈ s.received, q.2.blockNumber = p.2.blockNumber + 1 →
    s.lastBlockNumber < q.2.blockNumber → Crosses config.hardForkTimestamps p.2 q.2 →
    p.2.blockNumber ∈ s.targetEndBlockNumbers ∨
      q.2.blockNumber ∉ s.pendingTriggerBlocks ++ triggerBlocks s.processedFtxQueue ∧
        (q.2.blockNumber = s.lastBlockNumber + 1 → s.startBlockNumber ≠ none)

instance {config : Config M σ} {s : State M σ} : Decidable (ForksClear config s) :=
  inferInstanceAs (Decidable (∀ p ∈ s.received, _))

theorem split_concat (h : m ++ [b] = l ++ x :: y :: r) :
    (∃ r', m = l ++ x :: y :: r') ∨ (m = l ++ [x] ∧ y = b) := by
  obtain rfl | ⟨r', c, rfl⟩ := List.eq_nil_or_concat r
  · have h : m ++ [b] = (l ++ [x]) ++ [y] := by simpa using h
    obtain ⟨hm, hb⟩ := List.append_inj' h rfl
    exact .inr ⟨hm, (List.cons.inj hb).1.symm⟩
  · have h : m ++ [b] = (l ++ x :: y :: r') ++ [c] := by simpa using h
    exact .inl ⟨r', (List.append_inj' h rfl).1⟩

section
variable {config : Config M σ} {s : State M σ} {a a' : Layout M}

theorem blocks_eq_openBlocks (a : Layout M) :
    a.blocks = a.closed.flatten.flatMap (·.blocks) ++ a.openBlocks := by
  simp [Layout.blocks, Layout.handed, Layout.batches, Layout.openBlocks]

@[simp] theorem openBlocks_append : (a.append block).openBlocks = a.openBlocks ++ [block] := by
  simp [Layout.openBlocks, Layout.append]

@[simp] theorem openBlocks_closeBatch (hne : a.current ≠ []) :
    (a.closeBatch hne t).openBlocks = a.openBlocks := by
  simp [Layout.openBlocks, Layout.closeBatch]

theorem First.of_hardFork (h : First config s block t) (hfork : Trips config s block .hardFork) :
    t = .targetBlockNumber ∨ t = .forcedTransaction ∨ t = .hardFork := by
  have hle := h.first _ hfork
  cases t <;> simp [ConflationTrigger.triggerPriority] at hle ⊢

theorem First.of_target (h : First config s block t)
    (htarget : Trips config s block .targetBlockNumber) : t = .targetBlockNumber := by
  have hle := h.first _ htarget
  cases t <;> simp [ConflationTrigger.triggerPriority] at hle ⊢

theorem Seams.of_append (timestamp : ∀ x ∈ (a.append block).blocks.getLast?,
      s.lastProcessedTimestamp = x.blockTimestamp)
    (closed : ∀ t ∈ s.targetEndBlockNumbers, ∀ batches ∈ a.closed,
      Seam t (batches.flatMap (·.blocks)))
    (openBlob : ∀ t ∈ s.targetEndBlockNumbers, Seam t (a.openBlocks ++ [block])) :
    Seams (a.append block) s := by
  have hcurrent : (a.append block).current ≠ [] := by simp [Layout.append]
  refine ⟨fun hnil => absurd hnil hcurrent, timestamp, closed, ?_⟩
  rw [openBlocks_append]
  exact openBlob

end

section
variable [Fintype M] {config : Config M σ} {s : State M σ}
variable {a : Layout M}

theorem Represents.le_lastBlockNumber (h : Represents config first a [] s) (hx : x ∈ a.blocks) :
    x.blockNumber ≤ s.lastBlockNumber := by
  have hnumbered := h.chain.numbered
  rw [List.append_nil] at hnumbered
  rw [h.chain.lastBlockNumber]
  exact hnumbered.hi_le_last hx

theorem Taken.blockNumber_eq (h : Taken config first a s block a' s')
    (hrep : Represents config first a [] s) : block.blockNumber = s.lastBlockNumber + 1 := by
  have hnumbered := h.represents.chain.numbered
  rw [h.conflated.blocks_eq, List.append_nil] at hnumbered
  rw [hrep.chain.lastBlockNumber]
  exact (Tiling.tiles_append.mp hnumbered).2.1

section
variable (h : Seams a s) (hrep : Represents config first a [] s)
include h hrep

theorem Seams.closed_closeBlob (hne : a.current ≠ []) {targets : List Nat}
    (htargets : ∀ t ∈ targets, t ∈ s.targetEndBlockNumbers ∨ t = s.lastBlockNumber) :
    ∀ t ∈ targets, ∀ batches ∈ (a.closeBatch hne trigger).closeBlob.closed,
      Seam t (batches.flatMap (·.blocks)) := by
  have hlast : ((a.closeBatch hne trigger).pending.flatMap (·.blocks)) = a.openBlocks := by
    simp [Layout.closeBatch, Layout.openBlocks]
  have hblocks := blocks_eq_openBlocks a
  intro t ht batches hb
  obtain ht | rfl := htargets t ht
  · obtain hb | hb := List.mem_append.mp hb
    · exact h.closed t ht batches hb
    · rw [List.mem_singleton.mp hb, hlast]
      exact h.openBlob t ht
  · refine seam_of_le fun x hx => hrep.le_lastBlockNumber ?_
    rw [hblocks]
    obtain hb | hb := List.mem_append.mp hb
    · refine List.mem_append_left _ ?_
      obtain ⟨batch, hbatch, hx⟩ := List.mem_flatMap.mp hx
      exact List.mem_flatMap.mpr ⟨batch, List.mem_flatten.mpr ⟨batches, hb, hbatch⟩, hx⟩
    · rw [List.mem_singleton.mp hb, hlast] at hx
      exact List.mem_append_right _ hx

theorem Seams.timeLimit (hne : a.current ≠ []) (hkept : Kept s s')
    (htargets : s'.targetEndBlockNumbers = s.targetEndBlockNumbers) :
    Seams (a.closeBatch hne .timeLimit).closeBlob s' := by
  constructor
  · exact fun _ => rfl
  · rw [blocks_closeBlob, blocks_closeBatch, hkept.lastProcessedTimestamp]
    exact h.timestamp
  · rw [htargets]
    exact h.closed_closeBlob hrep hne fun t ht => .inl ht
  · intro t _ x hx
    cases hx

theorem Seams.taken (hlt : block.blockNumber < 2 ^ 64)
    (htaken : Taken config first a s block a' s') : Seams a' s' := by
  have hnumbered := htaken.represents.chain.numbered
  rw [htaken.conflated.blocks_eq, List.append_nil] at hnumbered
  have hnumber := htaken.blockNumber_eq hrep
  have hbefore : blockBefore block.blockNumber = s.lastBlockNumber := by
    rw [hnumber] at hlt ⊢
    exact blockBefore_succ hlt
  have htime : ∀ x ∈ a'.blocks.getLast?, s'.lastProcessedTimestamp = x.blockTimestamp := by
    rw [htaken.conflated.blocks_eq, List.getLast?_concat]
    rintro x ⟨⟩
    exact htaken.lastProcessedTimestamp
  have htarget (h : s.lastBlockNumber ∈ s.targetEndBlockNumbers) :
      Trips config s block .targetBlockNumber := by
    rwa [Trips, hbefore]
  -- the open blob goes on
  have hopen : ∀ t ∈ s.targetEndBlockNumbers, (a.openBlocks ≠ [] → t ≠ s.lastBlockNumber) →
      Seam t (a.openBlocks ++ [block]) := by
    intro t ht hne
    have hblocks := hnumbered
    rw [blocks_eq_openBlocks, List.append_assoc] at hblocks
    refine (h.openBlob t ht).concat (Tiling.tiles_append.mp hblocks).2 ?_
    rw [hrep.chain.lastBlockNumber, blocks_eq_openBlocks, lastNumber, Tiling.last_append] at hne
    exact hne
  have hconflated := htaken.conflated
  cases hconflated with
  | appended hnone heq =>
    refine .of_append htime ?_ ?_
    · rw [heq]
      exact h.closed
    · rw [heq]
      intro t ht
      refine hopen t ht ?_
      rintro hne rfl
      obtain hnil | hnone := hnone
      · simp [Layout.openBlocks, hnil, h.idle hnil] at hne
      · exact hnone _ (htarget ht)
  | batchClosed hne hfirst hcloses heq =>
    refine .of_append htime ?_ ?_
    · rw [heq]
      exact h.closed
    · rw [heq, openBlocks_closeBatch]
      intro t ht
      refine hopen t ht ?_
      rintro - rfl
      exact hcloses (.inr (.inr (.inl (hfirst.of_target (htarget ht)))))
  | @blobClosed t _ hne hfirst heq =>
    have hmem : ∀ u ∈ s'.targetEndBlockNumbers,
        u ∈ s.targetEndBlockNumbers ∨ u = s.lastBlockNumber := by
      rw [heq]
      split
      · exact fun u hu => (List.mem_cons.mp hu).symm
      · exact fun u hu => .inl hu
    refine .of_append htime (h.closed_closeBlob hrep hne hmem) ?_
    exact fun u _ => seam_singleton block

end

theorem Taken.targets_subset (h : Taken config first a s block a' s') :
    s.targetEndBlockNumbers ⊆ s'.targetEndBlockNumbers := by
  cases h.conflated with
  | appended _ heq | batchClosed _ _ _ heq => exact heq ▸ List.Subset.refl _
  | blobClosed _ _ heq =>
    rw [heq]
    split <;> simp

theorem Taken.received_block (h : Taken config first a s block a' s') :
    ∃ b, (b, block) ∈ s.received := by
  rw [← h.received]
  exact h.represents.chain.received block (by simp [h.conflated.blocks_eq])

/-- A fork that comes with the block becomes a target block. -/
theorem Marked.taken_fork (h : Marked config a s) (hclear : ForksClear config s)
    (hrep : Represents config first a [] s) (hlt : block.blockNumber < 2 ^ 64)
    (htaken : Taken config first a s block a' s') (hx : a.blocks = l ++ [x])
    (hcross : Crosses config.hardForkTimestamps x block) :
    x.blockNumber ∈ s'.targetEndBlockNumbers := by
  have hlast : x.blockNumber = s.lastBlockNumber := by
    rw [hrep.chain.lastBlockNumber, hx, lastNumber, Tiling.last_append]
    rfl
  have hnumber := htaken.blockNumber_eq hrep
  have hfork : Trips config s block .hardFork := by
    have htime := h.timestamp x (by simp [hx])
    simpa [Trips, htime, Crosses] using hcross
  obtain ⟨b, hb⟩ := htaken.received_block
  obtain ⟨c, hc⟩ := hrep.chain.received x (by simp [hx])
  obtain hmem | ⟨hforced, hopen⟩ := hclear _ hc _ hb (by simp [hnumber, hlast]) (by simp [hnumber])
    hcross
  · exact htaken.targets_subset hmem
  · have hcurrent := hrep.inStep.startBlockNumber_ne_none.mp (hopen hnumber)
    cases htaken.conflated with
    | appended hnone _ => exact absurd hfork ((hnone.resolve_left hcurrent) .hardFork)
    | batchClosed _ hfirst hcloses _ =>
      obtain rfl | rfl | rfl := hfirst.of_hardFork hfork
      · exact absurd (.inr (.inr (.inl rfl))) hcloses
      · exact absurd hfirst.trips hforced
      · exact absurd (.inr (.inr (.inr (.inl rfl)))) hcloses
    | blobClosed _ hfirst heq =>
      obtain rfl | rfl | rfl := hfirst.of_hardFork hfork
      · have htarget := hfirst.trips
        rw [Trips, hnumber, blockBefore_succ (hnumber ▸ hlt), ← hlast] at htarget
        exact htaken.targets_subset htarget
      · exact absurd hfirst.trips hforced
      · rw [heq, if_pos rfl, hlast]
        exact List.mem_cons_self

theorem ForksClear.taken (h : ForksClear config s) (hrep : Represents config first a [] s)
    (htaken : Taken config first a s block a' s') : ForksClear config s' := by
  intro p hp q hq hpq hnew hcross
  rw [htaken.received] at hp hq
  rw [htaken.lastBlockNumber, htaken.blockNumber_eq hrep] at hnew
  refine (h p hp q hq hpq (Nat.lt_of_succ_lt hnew) hcross).imp (fun hmem =>
    htaken.targets_subset hmem) fun hother => ⟨fun hmem => hother.1 ?_, fun _ =>
      htaken.represents.inStep.startBlockNumber_ne_none.mpr htaken.conflated.current_ne_nil⟩
  rw [htaken.pendingTriggerBlocks, htaken.processedFtxQueue] at hmem
  obtain hmem | hmem := List.mem_append.mp hmem
  · exact List.mem_of_mem_filter hmem
  · exact List.mem_append_right _ hmem

theorem stable_seams (config : Config M σ) (first : Nat) :
    Stable config first (fun _ => True) Seams where
  received h _ _ _ := { h with }
  queue h _ := { h with }
  timeLimit hrep h hne _ hkept htargets := h.timeLimit hrep hne hkept htargets
  taken hrep h _ hlt htaken := ⟨h.taken hrep hlt htaken, trivial⟩

theorem stable_marked (config : Config M σ) (first : Nat) :
    Stable config first (ForksClear config) (Marked config) where
  received h _ _ _ := { h with }
  queue h _ := { h with }
  timeLimit hrep h hne _ hkept htargets := by
    refine ⟨h.toSeams.timeLimit hrep hne hkept htargets, fun heq hcross => ?_⟩
    rw [blocks_closeBlob, blocks_closeBatch] at heq
    rw [htargets]
    exact h.forks heq hcross
  taken hrep h hclear hlt htaken := by
    refine ⟨⟨h.toSeams.taken hrep hlt htaken, fun heq hcross => ?_⟩, ?_⟩
    · rw [htaken.conflated.blocks_eq] at heq
      obtain ⟨r', hold⟩ | ⟨hold, rfl⟩ := split_concat heq
      · exact htaken.targets_subset (h.forks hold hcross)
      · exact h.taken_fork hclear hrep hlt htaken hold hcross
    · exact hclear.taken hrep htaken

end

end StatusNetwork.Coordinator.Conflation
