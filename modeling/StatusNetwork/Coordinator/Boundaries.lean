import StatusNetwork.Coordinator.AggregationSeals
import StatusNetwork.Coordinator.Seams

/-!
# Boundaries of conflations, blobs and aggregations

The conflation calculators and the aggregation calculators as `ConflationApp` puts them together.
They share the set of target end blocks, which conflation adds to, and the queue of processed forced
transactions, which conflation reads and aggregation empties; the blobs get to aggregation in order,
some time after they were closed.
-/

namespace StatusNetwork.Coordinator.Boundaries

open Aggregation (Good Sealed lastBlock step_good)
open Conflation (ConflationCalculationResult Layout Marked Ordered Represents Seams lastNumber
  results_eq stable_marked stable_seams)
open Tiling (last last_append tiles_append)

structure Config (M σ : Type) where
  conflation : Conflation.Config M σ
  aggregation : Aggregation.Config

/-- Both parts have the shared objects. -/
structure State (M σ : Type) where
  conflation : Conflation.State M σ
  aggregation : Aggregation.State
  delivered : Nat

def counters (blob : Conflation.Blob M) : BlobCounters where
  numberOfBatches := blob.conflations.length
  startBlockNumber := (blob.conflations.head?.map (·.startBlockNumber)).getD 0
  endBlockNumber := (blob.conflations.getLast?.map (·.endBlockNumber)).getD 0
  startBlockTimestamp := blob.startBlockTime
  endBlockTimestamp := blob.endBlockTime

inductive Action (M : Type)
  | conflation (action : Conflation.Action M)
  | newBlob (arriving : List (List ForcedTransactionInclusionStatus))
  | checkAggregation
  | handleDeadlineTrigger (i : Nat) (arriving : List (List ForcedTransactionInclusionStatus))

section
variable [Fintype M] (config : Config M σ)

def initial (lastBlockNumber initialTimestamp : Nat) (targetEndBlockNumbers : List Nat) :
    State M σ where
  conflation :=
    Conflation.initial config.conflation lastBlockNumber initialTimestamp targetEndBlockNumbers
  aggregation := Aggregation.initial config.aggregation lastBlockNumber targetEndBlockNumbers
  delivered := 0

def stepConflation (s : State M σ) (action : Conflation.Action M) : Option (State M σ) := do
  let conflation ← (Conflation.step config.conflation s.conflation action).toOption
  some { s with
    conflation
    aggregation := { s.aggregation with
      targetEndBlockNumbers := conflation.targetEndBlockNumbers
      processedFtxQueue := conflation.processedFtxQueue } }

def stepAggregation (s : State M σ) (action : Aggregation.Action) : Option (State M σ) := do
  let aggregation ← Aggregation.step config.aggregation s.aggregation action
  some { s with
    aggregation
    conflation := { s.conflation with processedFtxQueue := aggregation.processedFtxQueue } }

def step (s : State M σ) : Action M → Option (State M σ)
  | .conflation action => stepConflation config s action
  | .newBlob arriving => do
    let blob ← s.conflation.blobs[s.delivered]?
    stepAggregation config { s with delivered := s.delivered + 1 }
      (.newBlob (counters blob) arriving)
  | .checkAggregation => stepAggregation config s .checkAggregation
  | .handleDeadlineTrigger i arriving =>
    stepAggregation config s (.handleDeadlineTrigger i arriving)

def Valid (first : Nat) (s : State M σ) : Action M → Prop
  | .conflation .consumeProcessedFtxs => False
  | .conflation action => Conflation.Valid first s.conflation action
  | _ => True

instance {first : Nat} {s : State M σ} {action : Action M} : Decidable (Valid first s action) := by
  unfold Valid
  split <;> infer_instance

abbrev Reaches (first initialTimestamp : Nat) (targetEndBlockNumbers : List Nat) :
    State M σ → Prop :=
  Interleaving.Reaches (step config) (Valid first)
    (initial config first initialTimestamp targetEndBlockNumbers)

end

-- The blobs as aggregation gets them

section
variable {config : Conflation.Config M σ}

open Conflation (Numbered lastNumber BlobOf Batch Layout)

theorem exists_related (h : List.Forall₂ R l m) (hb : b ∈ m) : ∃ a ∈ l, R a b := by
  induction h with
  | nil => cases hb
  | cons hab _ ih =>
    obtain rfl | hb := List.mem_cons.mp hb
    · exact ⟨_, List.mem_cons_self, hab⟩
    · obtain ⟨a, ha, hab⟩ := ih hb
      exact ⟨a, List.mem_cons_of_mem _ ha, hab⟩

theorem counters_eq (h : BlobOf config batches blob)
    (hn : Numbered n (batches.flatMap (·.blocks))) :
    (counters blob).startBlockNumber = n + 1 ∧
      (counters blob).endBlockNumber = lastNumber n (batches.flatMap (·.blocks)) ∧
      n < lastNumber n (batches.flatMap (·.blocks)) := by
  obtain ⟨before, last, hlast, -⟩ := h.data
  obtain ⟨head, after, hhead⟩ : ∃ head after, batches = head :: after :=
    List.exists_cons_of_ne_nil (by simp [hlast])
  refine ⟨?_, ?_, ?_⟩
  · have hstart : head.result.startBlockNumber = n + 1 := by
      rw [hhead] at hn
      exact Conflation.result_start (l := []) head (tiles_append.mp hn).1
    simpa [counters, h.conflations, hhead] using hstart
  · have hend := Conflation.result_end last (lastNumber n (before.flatMap (·.blocks)))
    simpa [counters, h.conflations, hlast] using hend
  · have hmem : last.blocks.head last.nonempty ∈ batches.flatMap (·.blocks) := by simp [hlast]
    exact Nat.lt_of_lt_of_le (hn.lt_lo hmem) (hn.hi_le_last hmem)

theorem last_results {batches : List (Batch M)} :
    last ConflationCalculationResult.endBlockNumber n (batches.map Batch.result) =
      lastNumber n (batches.flatMap (·.blocks)) := by
  induction batches generalizing n with
  | nil => rfl
  | cons batch batches ih =>
    rw [List.map_cons, Tiling.last_cons, ih, List.flatMap_cons, lastNumber, last_append,
      Conflation.result_end batch n]

theorem tiles_counters (h : List.Forall₂ (BlobOf config) closed blobs)
    (hn : Numbered n (closed.flatten.flatMap (·.blocks))) :
    Aggregation.Tiles n (blobs.map counters) ∧
      lastBlock n (blobs.map counters) = lastNumber n (closed.flatten.flatMap (·.blocks)) := by
  induction h generalizing n with
  | nil => exact ⟨trivial, rfl⟩
  | cons hblob _ ih =>
    rw [List.flatten_cons, List.flatMap_append] at hn ⊢
    obtain ⟨hfirst, hrest⟩ := tiles_append.mp hn
    obtain ⟨hstart, hend, hlt⟩ := counters_eq hblob hfirst
    have hend' := hend
    rw [lastNumber] at hend'
    rw [← hend'] at hrest
    obtain ⟨htiles, hlast⟩ := ih hrest
    refine ⟨⟨hstart, by omega, htiles⟩, ?_⟩
    rw [lastNumber, last_append, ← hend']
    exact hlast

theorem not_inside_blob (h : BlobOf config batches blob)
    (hseam : Conflation.Seam t (batches.flatMap (·.blocks))) :
    ¬ ((counters blob).startBlockNumber ≤ t ∧ t < (counters blob).endBlockNumber) := by
  obtain ⟨before, last, hlast, -⟩ := h.data
  obtain ⟨head, after, hhead⟩ : ∃ head after, batches = head :: after :=
    List.exists_cons_of_ne_nil (by simp [hlast])
  have hx : head.blocks.head head.nonempty ∈ batches.flatMap (·.blocks) := by simp [hhead]
  have hy : last.blocks.getLast last.nonempty ∈ batches.flatMap (·.blocks) := by simp [hlast]
  have hstart : (counters blob).startBlockNumber = head.result.startBlockNumber := by
    simp [counters, h.conflations, hhead]
  have hend : (counters blob).endBlockNumber = last.result.endBlockNumber := by
    simp [counters, h.conflations, hlast]
  rw [hstart, hend]
  exact hseam.not_inside hx hy

-- What conflation changes for aggregation

def closedBlocks (a : Layout M) : List (Conflation.BlockCounters M) :=
  a.closed.flatten.flatMap (·.blocks)

/-- Since some earlier state there are more blobs and target blocks; the new target blocks come
after what aggregation has got. -/
structure Ahead (first : Nat) (aggregated : Nat) (before : Conflation.State M σ) (a : Layout M)
    (s : Conflation.State M σ) : Prop where
  blobs : before.blobs <+: s.blobs
  targets : ∀ t ∈ s.targetEndBlockNumbers, t ∈ before.targetEndBlockNumbers ∨ aggregated < t
  targets_subset : before.targetEndBlockNumbers ⊆ s.targetEndBlockNumbers
  closed : aggregated ≤ lastNumber first (closedBlocks a)

variable [Fintype M] {first : Nat} {a : Layout M} {s before : Conflation.State M σ}

theorem closed_numbered (h : Represents config first a [] s) :
    Numbered first (closedBlocks a) ∧
      Numbered (lastNumber first (closedBlocks a)) a.openBlocks := by
  have hnumbered := h.chain.numbered
  rw [List.append_nil, Conflation.blocks_eq_openBlocks] at hnumbered
  exact tiles_append.mp hnumbered

theorem lastBlockNumber_eq (h : Represents config first a [] s) :
    s.lastBlockNumber = lastNumber (lastNumber first (closedBlocks a)) a.openBlocks := by
  rw [h.chain.lastBlockNumber, Conflation.blocks_eq_openBlocks, lastNumber, last_append]
  rfl

theorem lastNumber_mono (h : Represents config first a' [] s)
    (hclosed : a.closed <+: a'.closed) :
    lastNumber first (closedBlocks a) ≤ lastNumber first (closedBlocks a') := by
  obtain ⟨l, hl⟩ := hclosed
  have hnumbered := (closed_numbered h).1
  have hblocks : closedBlocks a' = closedBlocks a ++ l.flatten.flatMap (·.blocks) := by
    simp [closedBlocks, ← hl]
  rw [hblocks] at hnumbered ⊢
  rw [lastNumber, last_append]
  exact (tiles_append.mp hnumbered).2.le_last

theorem Ahead.next (h : Ahead first n before a s) (hrep : Represents config first a [] s)
    (hrep' : Represents config first a' [] s') (hblobs : s.blobs <+: s'.blobs)
    (hclosed : a.closed <+: a'.closed)
    (hsub : s.targetEndBlockNumbers ⊆ s'.targetEndBlockNumbers)
    (hnew : ∀ t ∈ s'.targetEndBlockNumbers, t ∈ s.targetEndBlockNumbers ∨
      (a.current ≠ [] ∧ t = s.lastBlockNumber)) : Ahead first n before a' s' := by
  refine ⟨h.blobs.trans hblobs, fun t ht => ?_, List.Subset.trans h.targets_subset hsub,
    Nat.le_trans h.closed (lastNumber_mono hrep' hclosed)⟩
  obtain ht | ⟨hne, rfl⟩ := hnew t ht
  · exact h.targets t ht
  · right
    have hopen := (closed_numbered hrep).2
    have hmem : a.current.head hne ∈ a.openBlocks :=
      List.mem_append_right _ (List.head_mem hne)
    rw [lastBlockNumber_eq hrep]
    exact Nat.lt_of_le_of_lt h.closed
      (Nat.lt_of_lt_of_le (hopen.lt_lo hmem) (hopen.hi_le_last hmem))

theorem stable_ahead (config : Conflation.Config M σ) (first n : Nat)
    (before : Conflation.State M σ) :
    Conflation.Stable config first (fun _ => True) (Ahead first n before) where
  received h _ _ _ := { h with }
  queue h _ := { h with }
  timeLimit hrep h hne hrep' hkept htargets := by
    refine h.next hrep hrep' hkept.blobs (List.prefix_append _ _)
      (htargets ▸ List.Subset.refl _) fun t ht => ?_
    exact .inl (htargets ▸ ht)
  taken hrep h _ _ htaken := by
    refine ⟨?_, trivial⟩
    have hconflated := htaken.conflated
    have hrep' := htaken.represents
    have hsub := htaken.targets_subset
    cases hconflated with
    | appended hnone heq | batchClosed hne hfirst hcloses heq =>
      exact h.next hrep hrep' htaken.blobs List.prefix_rfl hsub fun t ht => .inl (heq ▸ ht)
    | blobClosed hne hfirst heq =>
      refine h.next hrep hrep' htaken.blobs (List.prefix_append _ _) hsub fun t ht => ?_
      rw [heq] at ht
      split at ht
      · exact (List.mem_cons.mp ht).elim (fun heq => .inr ⟨hne, heq⟩) .inl
      · exact .inl ht

end

-- Runs

/-- An aggregation may have at least the proofs of a blob. -/
structure Config.Ok (config : Config M σ) : Prop where
  batchesLimit : 1 ≤ config.conflation.batchesLimit
  proofsLimit : config.conflation.batchesLimit + 1 ≤ config.aggregation.maxProofsPerAggregation
  aggregation : config.aggregation.Ok

structure Linked [Fintype M] (config : Config M σ) (first : Nat) (a : Conflation.Layout M)
    (s : State M σ) : Prop where
  holds : Conflation.Holds config.conflation first Seams a s.conflation
  good : Good config.aggregation (2 * config.aggregation.maxProofsPerAggregation) first
    s.aggregation []
  delivered : s.delivered ≤ s.conflation.blobs.length
  isSealed : Aggregation.Sealed s.conflation.targetEndBlockNumbers
    ((s.conflation.blobs.take s.delivered).map counters) s.aggregation []

theorem exists_adjacent {P : α → Prop} (l : List α) (hx : P x) (hy : ¬ P y) :
    ∃ l₁ u v l₂, x :: (l ++ [y]) = l₁ ++ u :: v :: l₂ ∧ P u ∧ ¬ P v := by
  induction l generalizing x with
  | nil => exact ⟨[], x, y, [], rfl, hx, hy⟩
  | cons z l ih =>
    by_cases hz : P z
    · obtain ⟨l₁, u, v, l₂, heq, huv⟩ := ih hz
      exact ⟨x :: l₁, u, v, l₂, by rw [List.cons_append, heq, List.cons_append], huv⟩
    · exact ⟨[], x, z, l ++ [y], rfl, hx, hz⟩

theorem exists_between (h : Conflation.Numbered n blocks) (hx : x ∈ blocks) (hy : y ∈ blocks)
    (hlt : x.blockNumber < y.blockNumber) : ∃ l m r, blocks = l ++ x :: (m ++ [y]) ++ r := by
  obtain ⟨l, m, rfl⟩ := List.append_of_mem hx
  have hl := (tiles_append.mp h).1
  have hlo := h.lo_eq
  obtain hy | hy := List.mem_append.mp hy
  · have hle := hl.hi_le_last hy
    omega
  · obtain rfl | hy := List.mem_cons.mp hy
    · exact absurd hlt (Nat.lt_irrefl _)
    · obtain ⟨m, r, rfl⟩ := List.append_of_mem hy
      exact ⟨l, m, r, by simp⟩

theorem exists_fork (h : Conflation.Numbered n blocks) (hx : x ∈ blocks) (hy : y ∈ blocks)
    (hlt : x.blockNumber < y.blockNumber) (hcross : Conflation.Crosses forks x y) :
    ∃ l u v r, blocks = l ++ u :: v :: r ∧ Conflation.Crosses forks u v ∧
      x.blockNumber ≤ u.blockNumber ∧ u.blockNumber < y.blockNumber := by
  obtain ⟨timestamp, hfork, hbefore, hafter⟩ := hcross
  obtain ⟨l, m, r, rfl⟩ := exists_between h hx hy hlt
  obtain ⟨l₁, u, v, l₂, heq, hu, hv⟩ :=
    exists_adjacent (P := fun b => b.blockTimestamp < timestamp) m hbefore (Nat.not_lt.mpr hafter)
  have hmiddle := (tiles_append.mp (tiles_append.mp h).1).2
  have hlast : lastNumber (lastNumber n l) (x :: (m ++ [y])) =
      y.blockNumber := by simp [lastNumber]
  have hxu : x.blockNumber ≤ u.blockNumber := by
    rw [hmiddle.1]
    exact hmiddle.lt_lo (by simp [heq])
  have hvy : v.blockNumber ≤ y.blockNumber := by
    rw [← hlast]
    exact hmiddle.hi_le_last (by simp [heq])
  have huv : v.blockNumber = u.blockNumber + 1 := by
    rw [heq] at hmiddle
    exact (tiles_append.mp hmiddle).2.2.2.1
  refine ⟨l ++ l₁, u, v, l₂ ++ r, by simp [heq], ⟨timestamp, hfork, hu, Nat.not_lt.mp hv⟩, hxu,
    ?_⟩
  omega

section
variable [Fintype M] {config : Config M σ} {first : Nat}
variable {a : Layout M} {s : State M σ}

section
variable (h : Linked config first a s)
include h

theorem Linked.tiles :
    Aggregation.Tiles first (s.conflation.blobs.map counters) ∧
      lastBlock first (s.conflation.blobs.map counters) = lastNumber first (closedBlocks a) :=
  tiles_counters h.holds.represents.outcome.blobs (closed_numbered h.holds.represents).1

theorem Linked.lastBlockNumber_le :
    s.aggregation.lastBlockNumber ≤ lastNumber first (closedBlocks a) := by
  obtain ⟨htiles, hlast⟩ := h.tiles
  rw [← List.take_append_drop s.delivered s.conflation.blobs, List.map_append] at htiles hlast
  rw [h.good.lastBlockNumber, h.isSealed.accepted_eq, ← hlast, lastBlock, last_append]
  exact (tiles_append.mp htiles).2.le_last

theorem Linked.conflation (action : Conflation.Action M) (hc : config.Ok)
    (hv : Conflation.Valid first s.conflation action)
    (hok : stepConflation config s action = some s') :
    (∃ a', Linked config first a' s') ∧
      s.conflation.targetEndBlockNumbers ⊆ s'.conflation.targetEndBlockNumbers := by
  obtain ⟨c, hstep, ⟨⟩⟩ := Option.bind_eq_some_iff.mp hok
  have hholds : Conflation.Holds config.conflation first (fun a c =>
      Seams a c ∧ Ahead first s.aggregation.lastBlockNumber s.conflation a c) a s.conflation :=
    ⟨h.holds.represents, h.holds.waiting, h.holds.kept, List.prefix_rfl, fun t ht => .inl ht,
      List.Subset.refl _, h.lastBlockNumber_le⟩
  obtain ⟨a', ⟨hrep, hwaiting, hseams, hahead⟩, -⟩ := Conflation.step_holds hc.batchesLimit
    ((stable_seams _ _).and (stable_ahead _ _ _ _)) hholds hv (by cases action <;> trivial)
    (Except.toOption_eq_some.mp hstep)
  obtain ⟨rest, hrest⟩ := hahead.blobs
  have htake : c.blobs.take s.delivered = s.conflation.blobs.take s.delivered := by
    rw [← hrest, List.take_append_of_le_length h.delivered]
  refine ⟨⟨a', ⟨hrep, hwaiting, hseams⟩, ?_, ?_, ?_⟩, hahead.targets_subset⟩
  · exact h.good.frame _ _ _ h.good.triggers
  · rw [← hrest, List.length_append]
    exact Nat.le_add_right_of_le h.delivered
  · rw [htake]
    exact h.isSealed.extend h.good hahead.targets _

theorem Linked.aggregation
    (hgood : Good config.aggregation (2 * config.aggregation.maxProofsPerAggregation) first g [])
    (hle : n ≤ s.conflation.blobs.length) (hsealed : Sealed s.conflation.targetEndBlockNumbers
      ((s.conflation.blobs.take n).map counters) g []) :
    Linked config first a ⟨{ s.conflation with processedFtxQueue := g.processedFtxQueue }, g, n⟩ :=
  ⟨h.holds.queue (stable_seams config.conflation first) _, hgood, hle, hsealed⟩

end

theorem Linked.next_blob (hc : config.Ok) (h : Linked config first a s)
    (hblob : s.conflation.blobs[s.delivered]? = some blob)
    (arriving : List (List ForcedTransactionInclusionStatus)) :
    Aggregation.Valid config.aggregation s.aggregation (.newBlob (counters blob) arriving) ∧
      ∀ t ∈ s.conflation.targetEndBlockNumbers,
        ¬ ((counters blob).startBlockNumber ≤ t ∧ t < (counters blob).endBlockNumber) := by
  obtain ⟨batches, hmem, hof⟩ :=
    exists_related h.holds.represents.outcome.blobs (List.mem_of_getElem? hblob)
  obtain ⟨hlt, rfl⟩ := List.getElem?_eq_some_iff.mp hblob
  have htiles := h.tiles.1
  rw [← List.take_append_drop s.delivered s.conflation.blobs, List.drop_eq_getElem_cons hlt,
    List.map_append] at htiles
  refine ⟨⟨?_, ?_, ?_⟩, fun t ht => ?_⟩
  · rw [h.good.lastBlockNumber, h.isSealed.accepted_eq]
    exact htiles.lo_eq
  · exact htiles.lo_le_hi (List.mem_append_right _ List.mem_cons_self)
  · have hfew := hof.fewBatches
    have hlimit := hc.proofsLimit
    simp only [counters, hof.conflations, List.length_map]
    omega
  · exact not_inside_blob hof (h.holds.kept.closed t ht batches hmem)

omit [Fintype M] in
theorem valid_conflation {action : Conflation.Action M} (h : Valid first s (.conflation action)) :
    Conflation.Valid first s.conflation action := by
  cases action with
  | consumeProcessedFtxs => exact absurd h id
  | _ => exact h

theorem step_linked (hc : config.Ok) (h : Linked config first a s)
    (hv : Valid first s action) (hok : step config s action = some s') :
    (∃ a', Linked config first a' s') ∧
      s.conflation.targetEndBlockNumbers ⊆ s'.conflation.targetEndBlockNumbers := by
  have hsame {l : List Nat} : l ⊆ l := List.Subset.refl _
  cases action with
  | conflation action => exact h.conflation action hc (valid_conflation hv) hok
  | newBlob arriving =>
    obtain ⟨blob, hblob, hok⟩ := Option.bind_eq_some_iff.mp hok
    obtain ⟨g, hg, ⟨⟩⟩ := Option.bind_eq_some_iff.mp hok
    obtain ⟨hvalid, hinside⟩ := h.next_blob hc hblob arriving
    have hexcess := h.good.noExcess_twice hvalid
    have hsealed := Aggregation.newBlob_sealed hc.aggregation h.good h.isSealed hvalid hexcess
      hinside hg
    refine ⟨⟨a, h.aggregation (step_good hc.aggregation h.good hvalid hexcess hg) ?_ ?_⟩, hsame⟩
    · exact (List.getElem?_eq_some_iff.mp hblob).1
    · rw [List.take_add_one, hblob, List.map_append]
      exact hsealed
  | checkAggregation =>
    obtain ⟨g, hg, ⟨⟩⟩ := Option.bind_eq_some_iff.mp hok
    have hgood := step_good (a := .checkAggregation) hc.aggregation h.good trivial trivial hg
    exact ⟨⟨a, h.aggregation hgood h.delivered
      (Aggregation.checkAggregation_sealed h.isSealed hg)⟩, hsame⟩
  | handleDeadlineTrigger i arriving =>
    obtain ⟨g, hg, ⟨⟩⟩ := Option.bind_eq_some_iff.mp hok
    have hgood := step_good (a := .handleDeadlineTrigger i arriving) hc.aggregation
      h.good trivial trivial hg
    exact ⟨⟨a, h.aggregation hgood h.delivered
      (Aggregation.handleDeadlineTrigger_sealed hc.aggregation h.good h.isSealed hg)⟩, hsame⟩

theorem initial_marked (config : Config M σ) (first ts : Nat) (targets : List Nat) :
    Conflation.Holds config.conflation first (Marked config.conflation) ⟨[], [], []⟩
      (initial config first ts targets).conflation := by
  refine ⟨Conflation.initial_represents _ first ts targets, ⟨.nil, nofun, nofun, nofun⟩,
    ⟨fun _ => rfl, nofun, fun _ _ => nofun, fun _ _ => nofun⟩, fun heq => ?_⟩
  exact absurd (congrArg List.length heq) (by simp [Layout.blocks, Layout.handed, Layout.batches])

theorem initial_linked (hc : config.Ok) (first ts : Nat) (targets : List Nat) :
    Linked config first ⟨[], [], []⟩ (initial config first ts targets) := by
  obtain ⟨hrep, hwaiting, hmarked⟩ := initial_marked config first ts targets
  exact ⟨⟨hrep, hwaiting, hmarked.toSeams⟩,
    Aggregation.initial_good hc.aggregation (by omega) first targets, Nat.zero_le _,
    ⟨rfl, rfl, nofun, nofun, nofun⟩⟩

theorem reaches_linked (hc : config.Ok) (h : Reaches config first ts targets s) :
    ∃ a, Linked config first a s := by
  refine h.invariant (I := fun s => ∃ a, Linked config first a s) ?_ ?_
  · exact ⟨_, initial_linked hc first ts targets⟩
  · rintro s action s' ⟨a, h⟩ hv hok
    exact (step_linked hc h hv hok).1

-- Some runs

def smallConfig : Config Unit Conflation.Bytes where
  conflation :=
    { tracesCountersLimit := fun _ => 10
      blocksLimit := none
      batchesLimit := 3
      hardForkTimestamps := [100]
      blobCompressor := ⟨[], fun _ _ => true, fun x block => (true, x ++ block), id, id⟩ }
  aggregation :=
    { maxProofsPerAggregation := 6
      maxBlobsPerAggregation := none
      aggregationSizeMultipleOf := 1
      hardForkTimestamps := [100]
      initialTimestamp := 0 }

theorem smallConfig_ok : smallConfig.Ok where
  batchesLimit := by decide
  proofsLimit := by decide
  aggregation := ⟨by decide, by simp [smallConfig], by decide⟩

def arrival (number timestamp : Nat) : Action Unit :=
  .conflation (Conflation.arrival number timestamp 1)

def deadline : List (Action Unit) := [.checkAggregation, .handleDeadlineTrigger 0 []]

def intervals (s : State Unit Conflation.Bytes) :
    List (Nat × Nat) × List (Nat × Nat) × List (Nat × Nat) :=
  (s.conflation.conflations.map fun c =>
      (c.conflationResult.startBlockNumber, c.conflationResult.endBlockNumber),
    s.conflation.blobs.map fun b => ((counters b).startBlockNumber, (counters b).endBlockNumber),
    s.aggregation.aggregations.map fun g =>
      (g.blobsToAggregate.startBlockNumber, g.blobsToAggregate.endBlockNumber))

-- Boundaries

structure NotInside (t : Nat) (s : State M σ) : Prop where
  conflations : ∀ r ∈ s.conflation.conflations.map (·.conflationResult),
    ¬ (r.startBlockNumber ≤ t ∧ t < r.endBlockNumber)
  blobs : ∀ b ∈ s.conflation.blobs.map counters,
    ¬ (b.startBlockNumber ≤ t ∧ t < b.endBlockNumber)
  aggregations : ∀ i ∈ s.aggregation.aggregations.map (·.blobsToAggregate),
    ¬ (i.startBlockNumber ≤ t ∧ t < i.endBlockNumber)

section
variable (h : Linked config first a s)
include h

theorem Linked.notInside (ht : t ∈ s.conflation.targetEndBlockNumbers) : NotInside t s := by
  have hseams := h.holds.kept
  constructor
  · rw [results_eq h.holds.represents.outcome.conflations]
    intro r hr
    obtain ⟨batch, hbatch, rfl⟩ := List.mem_map.mp hr
    obtain hbatch | hbatch := List.mem_append.mp hbatch
    · obtain ⟨batches, hb, hbatch⟩ := List.mem_flatten.mp hbatch
      have hsub : ∀ x ∈ batch.blocks, x ∈ batches.flatMap (·.blocks) := fun x hx =>
        List.mem_flatMap.mpr ⟨batch, hbatch, hx⟩
      exact (hseams.closed t ht batches hb).not_inside (hsub _ (List.head_mem batch.nonempty))
        (hsub _ (List.getLast_mem batch.nonempty))
    · have hsub : ∀ x ∈ batch.blocks, x ∈ a.openBlocks := fun x hx =>
        List.mem_append_left _ (List.mem_flatMap.mpr ⟨batch, hbatch, hx⟩)
      exact (hseams.openBlob t ht).not_inside (hsub _ (List.head_mem batch.nonempty))
        (hsub _ (List.getLast_mem batch.nonempty))
  · intro b hb
    obtain ⟨blob, hblob, rfl⟩ := List.mem_map.mp hb
    obtain ⟨batches, hbatches, hof⟩ := exists_related h.holds.represents.outcome.blobs hblob
    exact not_inside_blob hof (hseams.closed t ht batches hbatches)
  · intro i hi
    obtain ⟨aggregation, hmem, rfl⟩ := List.mem_map.mp hi
    exact h.isSealed.aggregations aggregation hmem t ht

theorem Linked.le_closed (ht : t ∈ s.conflation.targetEndBlockNumbers)
    (hlast : t < s.conflation.lastBlockNumber) :
    t ≤ lastNumber first (closedBlocks a) := by
  by_contra! hlt
  have hopen := (closed_numbered h.holds.represents).2
  rw [lastBlockNumber_eq h.holds.represents] at hlast
  obtain ⟨x, hx, hxt, -⟩ := hopen.exists_mem hlt (Nat.le_of_lt hlast)
  obtain ⟨y, hy, -, hly⟩ := hopen.exists_mem (Nat.lt_trans hlt hlast) (Nat.le_refl _)
  exact (h.holds.kept.openBlob t ht).not_inside hx hy ⟨hxt, Nat.lt_of_lt_of_le hlast hly⟩

theorem Linked.tiles_conflations :
    Tiling.Tiles ConflationCalculationResult.startBlockNumber
      ConflationCalculationResult.endBlockNumber first
      (s.conflation.conflations.map (·.conflationResult)) := by
  have hnumbered := h.holds.represents.chain.numbered
  rw [List.append_nil] at hnumbered
  rw [results_eq h.holds.represents.outcome.conflations]
  exact Conflation.tiles_results (tiles_append.mp hnumbered).1

theorem Linked.closed_le_conflations :
    lastNumber first (closedBlocks a) ≤
      last ConflationCalculationResult.endBlockNumber first
        (s.conflation.conflations.map (·.conflationResult)) := by
  have htiles := h.tiles_conflations
  rw [results_eq h.holds.represents.outcome.conflations, Layout.batches,
    List.map_append] at htiles ⊢
  have hle := (tiles_append.mp htiles).2.le_last
  rw [last_append]
  exact Nat.le_trans (Nat.le_of_eq last_results.symm) hle

/-- The block is the last one of a conflation, of a blob and, once later blocks are aggregated, of
an aggregation. -/
structure Ends (t : Nat) (s : State M σ) : Prop where
  conflations : ∃ c ∈ s.conflation.conflations, c.conflationResult.endBlockNumber = t
  blobs : ∃ blob ∈ s.conflation.blobs, (counters blob).endBlockNumber = t
  aggregations : (∃ g ∈ s.aggregation.aggregations, t < g.blobsToAggregate.endBlockNumber) →
    ∃ g ∈ s.aggregation.aggregations, g.blobsToAggregate.endBlockNumber = t

theorem Linked.ends (hfirst : first < t) (htarget : t ∈ s.conflation.targetEndBlockNumbers)
    (hlast : t < s.conflation.lastBlockNumber) : Ends t s := by
  have hclosed := h.le_closed htarget hlast
  have hnot := h.notInside htarget
  refine ⟨?_, ?_, ?_⟩
  · obtain ⟨r, hr, hend⟩ := h.tiles_conflations.exists_hi_eq hfirst
      (Nat.le_trans hclosed h.closed_le_conflations) hnot.conflations
    obtain ⟨c, hc, rfl⟩ := List.mem_map.mp hr
    exact ⟨c, hc, hend⟩
  · obtain ⟨htiles, hlast⟩ := h.tiles
    obtain ⟨b, hb, hend⟩ := htiles.exists_hi_eq hfirst
      (Nat.le_trans hclosed (Nat.le_of_eq hlast.symm)) hnot.blobs
    obtain ⟨blob, hblob, rfl⟩ := List.mem_map.mp hb
    exact ⟨blob, hblob, hend⟩
  · rintro ⟨g, hg, hlt⟩
    have hle := h.good.intervals.hi_le_last (List.mem_map_of_mem hg)
    obtain ⟨i, hi, hend⟩ := h.good.intervals.exists_hi_eq hfirst
      (Nat.le_trans (Nat.le_of_lt hlt) hle) hnot.aggregations
    obtain ⟨g, hg, rfl⟩ := List.mem_map.mp hi
    exact ⟨g, hg, hend⟩

/-- Where a forced transaction is not included, the block before is a target block, unless that
block has been taken already. -/
def AtTarget (s : State M σ) : Action M → Prop
  | .conflation (.addProcessedFtx ftx) => ftx.inclusionResult ≠ .included →
    s.conflation.lastBlockNumber < blockBefore ftx.blockNumber →
    blockBefore ftx.blockNumber ∈ s.conflation.targetEndBlockNumbers
  | _ => True

def failedFtx : ForcedTransactionInclusionStatus := ⟨1, 5, .badNonce⟩

def failedFtxRun : List (Action Unit) :=
  [.conflation (.addProcessedFtx failedFtx), arrival 1 10, arrival 2 20, arrival 3 30,
    arrival 4 40, arrival 5 50, arrival 6 60, .conflation .timeLimit, .newBlob []]

def failedFtxAdded : State Unit Conflation.Bytes :=
  let s := initial smallConfig 0 0 [4]
  ⟨{ s.conflation with processedFtxQueue := [failedFtx] },
    { s.aggregation with processedFtxQueue := [failedFtx] }, 0⟩

theorem Linked.conflations_le :
    last ConflationCalculationResult.endBlockNumber first
      (s.conflation.conflations.map (·.conflationResult)) ≤ s.conflation.lastBlockNumber := by
  have hnumbered := h.holds.represents.chain.numbered
  rw [List.append_nil] at hnumbered
  rw [results_eq h.holds.represents.outcome.conflations, last_results,
    h.holds.represents.chain.lastBlockNumber, Layout.blocks, lastNumber,
    last_append]
  exact (tiles_append.mp hnumbered).2.le_last

theorem Linked.aggregated_le :
    last BlockInterval.endBlockNumber first
      (s.aggregation.aggregations.map (·.blobsToAggregate)) ≤ s.aggregation.lastBlockNumber := by
  have htiles := h.good.tiles
  rw [h.good.ends, h.good.lastBlockNumber, ← h.good.cover]
  rw [← h.good.cover] at htiles
  rw [lastBlock, last_append]
  exact (tiles_append.mp htiles).2.le_last

/-- No fork comes between two of the received blocks from `lo` to `hi`. -/
def Isolated (hardForkTimestamps : List Nat)
    (received : List (Conflation.Block × Conflation.BlockCounters M)) (lo hi : Nat) : Prop :=
  ∀ p ∈ received, ∀ q ∈ received, lo ≤ p.2.blockNumber → p.2.blockNumber ≤ hi →
    lo ≤ q.2.blockNumber → q.2.blockNumber ≤ hi → ¬ Conflation.Crosses hardForkTimestamps p.2 q.2

instance {forks : List Nat} {lo hi : Nat}
    {received : List (Conflation.Block × Conflation.BlockCounters M)} :
    Decidable (Isolated forks received lo hi) :=
  inferInstanceAs (Decidable (∀ p ∈ received, _))

end

/-- Steps in which the first block after a fork finds what marks the fork. -/
def Clear (config : Config M σ) (s : State M σ) : Action M → Prop
  | .conflation action =>
    Conflation.OnArrival (Conflation.ForksClear config.conflation) s.conflation action
  | _ => True

instance {config : Config M σ} {s : State M σ} {action : Action M} :
    Decidable (Clear config s action) :=
  match action with
  | .conflation (.newBlock ..) => inferInstanceAs (Decidable (Conflation.ForksClear _ _))
  | .conflation .timeLimit | .conflation (.addProcessedFtx _) | .conflation .consumeProcessedFtxs
  | .newBlob _ | .checkAggregation | .handleDeadlineTrigger .. => .isTrue trivial

theorem step_marked (hc : config.Ok)
    (h : Conflation.Holds config.conflation first (Marked config.conflation) a s.conflation)
    (hv : Valid first s action) (hclear : Clear config s action)
    (hok : step config s action = some s') :
    ∃ a', Conflation.Holds config.conflation first (Marked config.conflation) a' s'.conflation := by
  have hqueue := h.queue (stable_marked config.conflation first)
  cases action with
  | conflation action =>
    obtain ⟨c, hstep, ⟨⟩⟩ := Option.bind_eq_some_iff.mp hok
    obtain ⟨a', h', -⟩ := Conflation.step_holds hc.batchesLimit (stable_marked _ _) h
      (valid_conflation hv) hclear (Except.toOption_eq_some.mp hstep)
    exact ⟨a', h'⟩
  | newBlob arriving =>
    obtain ⟨blob, -, hok⟩ := Option.bind_eq_some_iff.mp hok
    obtain ⟨g, -, ⟨⟩⟩ := Option.bind_eq_some_iff.mp hok
    exact ⟨a, hqueue _⟩
  | checkAggregation | handleDeadlineTrigger i arriving =>
    obtain ⟨g, -, ⟨⟩⟩ := Option.bind_eq_some_iff.mp hok
    exact ⟨a, hqueue _⟩

/-- An interval without a target block inside is isolated, if every fork is at a target block. -/
theorem isolated {config : Conflation.Config M σ} {s : Conflation.State M σ}
    (h : Conflation.Holds config first (Marked config) a s) (htimes : Ordered s.received)
    (hinside : ∀ t ∈ s.targetEndBlockNumbers, ¬ (lo ≤ t ∧ t < hi))
    (hhi : hi ≤ s.lastBlockNumber) : Isolated config.hardForkTimestamps s.received lo hi := by
  have hmem {p : Conflation.Block × Conflation.BlockCounters M} (hp : p ∈ s.received)
      (hle : p.2.blockNumber ≤ s.lastBlockNumber) : p.2 ∈ a.blocks :=
    (h.waiting.complete p hp).resolve_right fun hmem =>
      absurd hle (Nat.not_le.mpr (h.waiting.beyond _ hmem))
  have hrep := h.represents
  have hnumbered := hrep.chain.numbered
  rw [List.append_nil] at hnumbered
  intro p hp q hq hlop hphi hloq hqhi hcross
  have hpmem := hmem hp (Nat.le_trans hphi hhi)
  have hqmem := hmem hq (Nat.le_trans hqhi hhi)
  have hlt : p.2.blockNumber < q.2.blockNumber := by
    by_contra! hle
    obtain ⟨timestamp, -, hbefore, hafter⟩ := hcross
    rw [← hrep.chain.matching p hp, ← hrep.chain.matching q hq] at hle
    exact Nat.lt_irrefl _ (Nat.lt_of_lt_of_le hbefore (Nat.le_trans hafter (htimes q hq p hp hle)))
  obtain ⟨l, u, v, r, hblocks, hcross, hpu, huq⟩ := exists_fork hnumbered hpmem hqmem hlt hcross
  exact hinside _ (h.kept.forks hblocks hcross)
    ⟨Nat.le_trans hlop hpu, Nat.lt_of_lt_of_le huq hqhi⟩

def forkWithFailedFtx : List (Action Unit) :=
  [.conflation (.addProcessedFtx failedFtx), arrival 1 10, arrival 2 20, arrival 3 30,
    arrival 4 100, .conflation .timeLimit]

def forkAfterDeadline : List (Action Unit) :=
  [arrival 1 10, .conflation .timeLimit, arrival 2 20, .conflation .timeLimit, .newBlob [],
    .newBlob [], arrival 3 100, .conflation .timeLimit, .newBlob []]

end

end StatusNetwork.Coordinator.Boundaries
