import StatusNetwork.Base.Interleaving
import StatusNetwork.Base.Numbering
import StatusNetwork.Base.Tiling
import StatusNetwork.StateRecovery.Lookback
import StatusNetwork.StateRecovery.Synchronizer

/-!
# Recovery without gaps

The finalizations between the queues and those taken from the last one are a part of the
finalizations of L1, in their order, and the last of them is the latest one found. A failed
search, download or import leaves them where they are. The blocks that are handed to the importer
then start after the head.

A failed decompression loses the finalization it took from the queue.
-/

namespace StatusNetwork.StateRecovery

open Interleaving (Reaches exists_reaches)
open Lookback (startBlockToFetchFromL1)

variable {R T V W B : Type}

-- Numbered blocks

def Numbered (n : Nat) (l : List (BlockFromL1RecoveredData B)) : Prop :=
  l.map (·.blockNumber) = List.range' n l.length

namespace Numbered

open Numbering (Consecutive)

variable {l : List (BlockFromL1RecoveredData B)}

@[simp] theorem nil : Numbered n ([] : List (BlockFromL1RecoveredData B)) := rfl

@[simp] theorem cons : Numbered n (b :: l) ↔ b.blockNumber = n ∧ Numbered (n + 1) l :=
  Consecutive.cons

theorem number (n : Nat) (l : List B) : Numbered n (Chain.number n l) := by
  induction l generalizing n with
  | nil => rfl
  | cons b l ih => exact cons.mpr ⟨rfl, ih (n + 1)⟩

theorem append : Numbered n (l ++ m) ↔ Numbered n l ∧ Numbered (n + l.length) m :=
  Consecutive.append

section
variable (h : Numbered n l) (k : Nat)
include h

theorem take : Numbered n (l.take k) := Consecutive.take h k

theorem drop : Numbered (n + k) (l.drop k) := Consecutive.drop h k

theorem dropWhile_eq : l.dropWhile (·.blockNumber ≤ k) = l.drop (k + 1 - n) :=
  Consecutive.dropWhile_eq h k

theorem takeWhile_eq : l.takeWhile (·.blockNumber ≤ k) = l.take (k + 1 - n) :=
  Consecutive.takeWhile_eq h k

end

theorem sorted_eq (h : Numbered n l) : sortedBlocks l = l := Consecutive.insertionSort_eq h

theorem getLast?_eq (h : Numbered (n + 1) l) :
    (l.getLast?.map (·.blockNumber)).getD n = n + l.length :=
  Consecutive.getLast?_eq h

end Numbered

-- What is on the way

namespace Chain

variable (chain : Chain R T V W B)

def blocksOf (f : FinalizationAndDataEventsV3 R T) : List (BlockFromL1RecoveredData B) :=
  chain.decompress f.startBlockNumber (chain.fetchBlobsOfSubmissionEvents f)

/-- The finalizations follow each other, from the one after the block `n` on, and each has the
data of all its blocks. -/
structure Consecutive (n : Nat) : Prop where
  tiles : Tiling.Tiles (·.startBlockNumber) (·.endBlockNumber) n chain.finalizations
  data : ∀ f ∈ chain.finalizations, f.startBlockNumber + (chain.blocksOf f).length =
    f.endBlockNumber + 1

end Chain

namespace State

variable (s : State R T W B)

def inDecompression : List (FinalizationAndDataEventsV3 R T) :=
  match s.decompression with
  | .decompressing x => [x.submissionEvents]
  | _ => []

def waiting : List (FinalizationAndDataEventsV3 R T) :=
  match s.blobs with
  | .added => s.submissionEventsQueue.tail
  | _ => s.submissionEventsQueue

def pipeline : List (FinalizationAndDataEventsV3 R T) :=
  s.decompressedBlocksQueue.map (·.submissionEvents) ++ s.inDecompression ++
    s.compressedBlobsQueue.map (·.submissionEvents) ++ s.waiting

def newest : Option (FinalizationAndDataEventsV3 R T) :=
  match s.events with
  | .added f => some f
  | _ => s.latestFetchedFinalization

end State

/-- The import is done with the blocks up to `n`: the head is there, or the import is to stop
before. -/
def Config.Passed (config : Config) (head n : Nat) : Prop :=
  n ≤ head ∨ ∃ stop ∈ config.debugForceSyncStopBlockNumber, stop ≤ n

theorem Config.Passed.mono {config : Config} (h : config.Passed head n) (hle : head ≤ head') :
    config.Passed head' n := h.imp_left fun h => h.trans hle

/-- What was found is a part of the finalizations of L1. -/
structure Segment (chain : Chain R T V W B) (config : Config) (n : Nat) (s : State R T W B)
    (before after : List (FinalizationAndDataEventsV3 R T)) : Prop where
  eq : chain.finalizations = before ++ (s.pruned ++ s.pipeline) ++ after
  newest : (s.pruned ++ s.pipeline).getLast? = s.newest
  passed : s.newest ≠ none →
    config.Passed s.head (Tiling.last (·.endBlockNumber) n (before ++ s.pruned))

/-- The queues hold what belongs to their finalizations. -/
structure Contents (chain : Chain R T V W B) (s : State R T W B) : Prop where
  blobs : ∀ x ∈ s.compressedBlobsQueue,
    x.data = chain.fetchBlobsOfSubmissionEvents x.submissionEvents
  inDecompression : ∀ x, s.decompression = .decompressing x →
    x.data = chain.fetchBlobsOfSubmissionEvents x.submissionEvents
  blocks : ∀ x ∈ s.decompressedBlocksQueue, x.data = chain.blocksOf x.submissionEvents

/-- The download works on the first element of its queue. -/
def State.BlobsOk (s : State R T W B) : Prop :=
  match s.blobs with
  | .fetching f => s.submissionEventsQueue.head? = some f
  | .added => s.submissionEventsQueue ≠ []
  | _ => True

/-- The import works on the first element of its queue. -/
def State.ImporterOk (config : Config) (s : State R T W B) : Prop :=
  match s.importer with
  | .filtering x => s.decompressedBlocksQueue.head? = some x
  | .importing x blocks => s.decompressedBlocksQueue.head? = some x ∧ blocks ≠ [] ∧
      blocks = filterOutBlocksAlreadyImportedAndBeyondStopSync
        config.debugForceSyncStopBlockNumber s.head x.data
  | .verifying x _ => s.decompressedBlocksQueue.head? = some x ∧
      config.Passed s.head x.submissionEvents.endBlockNumber
  | .pruning x => s.decompressedBlocksQueue.head? = some x ∧
      config.Passed s.head x.submissionEvents.endBlockNumber
  | _ => True

/-- Blocks of the finalizations of L1. -/
def Chain.Recovers (chain : Chain R T V W B) (blocks : List (BlockFromL1RecoveredData B)) : Prop :=
  ∀ b ∈ blocks, ∃ f ∈ chain.finalizations, b ∈ chain.blocksOf f

/-- What was handed to the importer and what it imported, from the head `head₀` on. -/
structure Records (chain : Chain R T V W B) (head₀ : Nat) (s : State R T W B) : Prop where
  handed : ∀ h ∈ s.handed, Numbered (h.head + 1) h.blocks ∧ chain.Recovers h.blocks
  head : s.head = head₀ + s.imported.length
  imported : Numbered (head₀ + 1) s.imported ∧ chain.Recovers s.imported

structure Inv (chain : Chain R T V W B) (config : Config) (n head₀ : Nat) (s : State R T W B) :
    Prop where
  segment : ∃ before after, Segment chain config n s before after
  contents : Contents chain s
  blobs : s.BlobsOk
  importer : s.ImporterOk config
  records : Records chain head₀ s

section
variable {chain : Chain R T V W B} {config : Config} {n head₀ : Nat} {s s' : State R T W B}
  {before after : List (FinalizationAndDataEventsV3 R T)}

theorem Inv.segment_congr (h : Inv chain config n head₀ s) (hpruned : s'.pruned = s.pruned)
    (hpipeline : s'.pipeline = s.pipeline) (hnewest : s'.newest = s.newest)
    (hhead : s'.head = s.head) : ∃ before after, Segment chain config n s' before after := by
  obtain ⟨before, after, h⟩ := h.segment
  refine ⟨before, after, ?_, ?_, ?_⟩
  · rw [hpruned, hpipeline]
    exact h.eq
  · rw [hpruned, hpipeline, hnewest]
    exact h.newest
  · rw [hpruned, hnewest, hhead]
    exact h.passed

/-- What the search, the download and the decompression leave alone. -/
theorem Inv.frame (h : Inv chain config n head₀ s)
    (hsegment : ∃ before after, Segment chain config n s' before after)
    (hcontents : Contents chain s') (hblobs : s'.BlobsOk) (himporter : s'.ImporterOk config)
    (hrest : (s'.head, s'.handed, s'.imported) = (s.head, s.handed, s.imported)) :
    Inv chain config n head₀ s' := by
  simp only [Prod.mk.injEq] at hrest
  obtain ⟨hhead, hhanded, himported⟩ := hrest
  refine ⟨hsegment, hcontents, hblobs, himporter, ?_, ?_, ?_⟩
  · rw [hhanded]
    exact h.records.handed
  · rw [hhead, himported]
    exact h.records.head
  · rw [himported]
    exact h.records.imported

theorem Inv.init (chain : Chain R T V W B) (config : Config) (n head₀ : Nat) :
    Inv chain config n head₀ (State.init config head₀) where
  segment := ⟨[], chain.finalizations, rfl, rfl, fun h => absurd rfl h⟩
  contents := ⟨by simp [State.init], by simp [State.init], by simp [State.init]⟩
  blobs := trivial
  importer := trivial
  records := ⟨by simp [State.init], rfl, Numbered.nil, by simp [State.init, Chain.Recovers]⟩

-- The search for events

theorem findNext_ok (hf : chain.findNextFinalizationSubmissionEvents config visible latest =
      .ok (some f)) :
    f ∈ chain.finalizations ∧
      ((latest = none ∧ f.startBlockNumber ≤ config.l2StartBlockNumber) ∨
        ∃ g, latest = some g ∧ f.startBlockNumber = g.endBlockNumber + 1) := by
  cases latest with
  | none =>
    simp only [Chain.findNextFinalizationSubmissionEvents, Except.ok.injEq] at hf
    have hmem := List.mem_of_find?_eq_some hf
    have hp := List.find?_some hf
    simp only [decide_eq_true_eq] at hp
    exact ⟨List.mem_of_mem_take hmem, .inl ⟨rfl, hp.2.1⟩⟩
  | some g =>
    simp only [Chain.findNextFinalizationSubmissionEvents, Chain.findDataFinalizedV3Event] at hf
    split at hf
    · cases hf
    · have hmem := List.mem_of_mem_head? (Except.ok.inj hf)
      obtain ⟨hmem, hp⟩ := List.mem_filter.mp hmem
      simp only [decide_eq_true_eq] at hp
      exact ⟨List.mem_of_mem_take hmem, .inr ⟨g, rfl, hp.2⟩⟩

theorem Segment.found (hl1 : chain.Consecutive n) (h : Segment chain config n s before after)
    (hnewest : s.newest = s.latestFetchedFinalization)
    (hstart : config.l2StartBlockNumber ≤ s.head + 1)
    (hf : chain.findNextFinalizationSubmissionEvents config visible s.latestFetchedFinalization =
      .ok (some f))
    (hpruned : s'.pruned = s.pruned) (hpipeline : s'.pipeline = s.pipeline ++ [f])
    (hnewest' : s'.newest = some f) (hhead : s'.head = s.head) :
    ∃ before after, Segment chain config n s' before after := by
  obtain ⟨hmem, hnext⟩ := findNext_ok hf
  have hlast := h.newest
  rw [hnewest] at hlast
  obtain ⟨hlatest, hle⟩ | ⟨g, hlatest, hnext⟩ := hnext
  · rw [hlatest] at hlast
    obtain ⟨hnone, hempty⟩ := List.append_eq_nil_iff.mp (List.getLast?_eq_none_iff.mp hlast)
    obtain ⟨before', after', hsplit⟩ := List.append_of_mem hmem
    have hlo : f.startBlockNumber = _ := (hsplit ▸ hl1.tiles).lo_eq
    refine ⟨before', after', ?_, ?_, fun _ => .inl ?_⟩
    · rw [hpruned, hpipeline, hnone, hempty, hsplit]
      simp
    · rw [hpipeline, hnewest', ← List.append_assoc, List.getLast?_concat]
    · rw [hpruned, hnone, List.append_nil]
      omega
  · rw [hlatest] at hlast
    have htiles := h.eq ▸ hl1.tiles
    have hend : Tiling.last (·.endBlockNumber) n (before ++ (s.pruned ++ s.pipeline)) =
        g.endBlockNumber := by
      obtain ⟨l, hl⟩ := List.getLast?_eq_some_iff.mp hlast
      rw [hl]
      simp
    obtain ⟨after', rfl⟩ := htiles.eq_cons (h.eq ▸ hmem) (hnext.trans (by rw [hend]))
    refine ⟨before, after', ?_, ?_, fun _ => ?_⟩
    · rw [hpruned, hpipeline, h.eq]
      simp
    · rw [hpipeline, hnewest', ← List.append_assoc, List.getLast?_concat]
    · rw [hpruned, hhead]
      exact h.passed (by rw [hnewest, hlatest]; simp)

theorem pipeline_concat (hs : s.BlobsOk) (f : FinalizationAndDataEventsV3 R T)
    (e : EventsTask R T) :
    State.pipeline { s with
      submissionEventsQueue := s.submissionEventsQueue ++ [f]
      events := e } = s.pipeline ++ [f] := by
  simp only [State.pipeline, State.inDecompression, State.waiting, List.append_assoc]
  congr 3
  unfold State.BlobsOk at hs
  split at hs
  · rename_i hb
    simp [hb]
  · rename_i hb
    simp [hb, List.tail_append_of_ne_nil hs]
  · rename_i hb
    cases hblobs : s.blobs with
    | added => exact absurd hblobs hb
    | _ => simp

theorem Inv.setEvents (h : Inv chain config n head₀ s)
    (hs : s' = { s with
      events := e
      eventsRunning := r
      latestFetchedFinalization := l
      submissionEventsQueue := q })
    (hsegment : ∃ before after, Segment chain config n s' before after) (hblobs : s'.BlobsOk) :
    Inv chain config n head₀ s' := by
  subst hs
  exact h.frame hsegment { h.contents with } hblobs h.importer rfl

theorem blobsOk_concat (hs : s.BlobsOk) (f : FinalizationAndDataEventsV3 R T) (e : EventsTask R T) :
    State.BlobsOk { s with
      submissionEventsQueue := s.submissionEventsQueue ++ [f]
      events := e } := by
  unfold State.BlobsOk at hs ⊢
  split at hs
  · rename_i hb
    simp [hb, List.head?_append, hs]
  · rename_i hb
    simp [hb]
  · cases hblobs : s.blobs with
    | fetching f =>
      rename_i hb _
      exact absurd hblobs (hb f)
    | added =>
      rename_i hb
      exact absurd hblobs hb
    | _ => trivial

theorem Inv.fetchSubmissionEvents (hl1 : chain.Consecutive n)
    (hstart : config.l2StartBlockNumber ≤ head₀ + 1) (h : Inv chain config n head₀ s)
    (hs : fetchSubmissionEvents chain config s = some s') : Inv chain config n head₀ s' := by
  -- most steps only move the task
  have hmove {s' : State R T W B} {e : EventsTask R T} {r : Bool}
      (hs : s' = { s with events := e, eventsRunning := r })
      (hnewest : s'.newest = s.newest) : Inv chain config n head₀ s' := by
    subst hs
    exact h.setEvents rfl (h.segment_congr rfl rfl hnewest rfl) h.blobs
  unfold StateRecovery.fetchSubmissionEvents at hs
  generalize he : s.events = task at hs
  cases task with
  | idle =>
    dsimp only at hs
    split at hs
    · cases hs
    · split at hs
      all_goals
        cases hs
        exact hmove rfl (by simp [State.newest, he])
  | sizing =>
    dsimp only at hs
    split at hs
    all_goals
      cases hs
      exact hmove rfl (by simp [State.newest, he])
  | searching =>
    dsimp only at hs
    split at hs
    · rename_i f hf
      cases hs
      refine h.setEvents rfl ?_ (blobsOk_concat h.blobs f _)
      obtain ⟨_, _, hsegment⟩ := h.segment
      refine hsegment.found hl1 (by simp [State.newest, he]) ?_ hf rfl
        (pipeline_concat h.blobs f _) rfl rfl
      have := h.records.head
      omega
    · cases hs
      exact hmove rfl (by simp [State.newest, he])
  | added f =>
    cases hs
    refine h.setEvents rfl (h.segment_congr rfl rfl ?_ rfl) h.blobs
    simp [State.newest, he]

-- Download and decompression

theorem importerOk_concat (hs : s.ImporterOk config)
    (x : SubmissionEventsAndData R T (BlockFromL1RecoveredData B)) (d : DecompressionTask R T W) :
    State.ImporterOk config { s with
      decompressedBlocksQueue := s.decompressedBlocksQueue ++ [x]
      decompression := d } := by
  have hhead {y : SubmissionEventsAndData R T (BlockFromL1RecoveredData B)}
      (hy : s.decompressedBlocksQueue.head? = some y) :
      (s.decompressedBlocksQueue ++ [x]).head? = some y := by
    rw [List.head?_append, hy, Option.some_or]
  unfold State.ImporterOk at hs ⊢
  cases hi : s.importer with
  | idle | peeking => trivial
  | filtering =>
    simp only [hi] at hs
    exact hhead hs
  | importing | verifying | pruning =>
    simp only [hi] at hs
    exact ⟨hhead hs.1, hs.2⟩

section
variable (h : Inv chain config n head₀ s)
include h

theorem Inv.setBlobs
    (hs : s' = { s with blobs := b, submissionEventsQueue := q, compressedBlobsQueue := c })
    (hpipeline : s'.pipeline = s.pipeline)
    (hc : ∀ x ∈ c, x.data = chain.fetchBlobsOfSubmissionEvents x.submissionEvents)
    (hblobs : s'.BlobsOk) : Inv chain config n head₀ s' := by
  subst hs
  exact h.frame (h.segment_congr rfl hpipeline rfl rfl)
    ⟨hc, h.contents.2, h.contents.3⟩ hblobs h.importer rfl

theorem Inv.fetchBlobs (hs : fetchBlobs chain config s = some s') :
    Inv chain config n head₀ s' := by
  have hblobs := h.blobs
  have hmove {s' : State R T W B} {b : BlobsTask R T W} (hs : s' = { s with blobs := b })
      (hwaiting : s'.waiting = s.waiting) (hblobs : s'.BlobsOk) :
      Inv chain config n head₀ s' := by
    subst hs
    refine h.setBlobs rfl ?_ h.contents.blobs hblobs
    simp only [State.pipeline, State.inDecompression, hwaiting]
  unfold StateRecovery.fetchBlobs at hs
  generalize hb : s.blobs = task at hs
  cases task with
  | idle =>
    cases hs
    exact hmove rfl (by simp [State.waiting, hb]) trivial
  | sizing =>
    dsimp only at hs
    split at hs
    all_goals
      cases hs
      exact hmove rfl (by simp [State.waiting, hb]) trivial
  | peeking =>
    dsimp only at hs
    split at hs
    · cases hs
      exact hmove rfl (by simp [State.waiting, hb]) trivial
    · rename_i f hf
      cases hs
      exact hmove rfl (by simp [State.waiting, hb]) hf
  | fetching f =>
    simp only [State.BlobsOk, hb] at hs hblobs
    cases hs
    obtain ⟨rest, hq⟩ := List.head?_eq_some_iff.mp hblobs
    refine h.setBlobs rfl ?_ ?_ ?_
    · simp [State.pipeline, State.waiting, State.inDecompression, hb, hq]
    · simpa [or_imp, forall_and] using h.contents.blobs
    · simp [State.BlobsOk, hq]
  | added =>
    cases hs
    refine h.setBlobs rfl ?_ h.contents.blobs trivial
    simp [State.pipeline, State.waiting, State.inDecompression, hb]

theorem Inv.setDecompression (hs : s' = { s with
      decompression := d
      compressedBlobsQueue := c
      decompressedBlocksQueue := q }) (hpipeline : s'.pipeline = s.pipeline)
    (hcontents : Contents chain s') (himporter : s'.ImporterOk config) :
    Inv chain config n head₀ s' := by
  subst hs
  exact h.frame (h.segment_congr rfl hpipeline rfl rfl) hcontents h.blobs himporter rfl

theorem Inv.decompressAndDeserializeBlobs (hs : decompressAndDeserializeBlobs chain s = some s') :
    Inv chain config n head₀ s' := by
  have hmove {s' : State R T W B} {d : DecompressionTask R T W}
      (hs : s' = { s with decompression := d })
      (hnone : s'.inDecompression = []) (hnone' : s.inDecompression = []) :
      Inv chain config n head₀ s' := by
    subst hs
    refine h.setDecompression rfl ?_ ⟨h.contents.blobs, ?_, h.contents.blocks⟩ h.importer
    · simp only [State.pipeline, State.waiting, hnone, hnone']
    · rintro x rfl
      simp [State.inDecompression] at hnone
  unfold StateRecovery.decompressAndDeserializeBlobs at hs
  generalize hd : s.decompression = task at hs
  cases task with
  | idle =>
    cases hs
    exact hmove rfl rfl (by simp [State.inDecompression, hd])
  | sizing =>
    dsimp only at hs
    split at hs
    all_goals
      cases hs
      exact hmove rfl rfl (by simp [State.inDecompression, hd])
  | polling =>
    dsimp only at hs
    split at hs
    · cases hs
      exact hmove rfl rfl (by simp [State.inDecompression, hd])
    · rename_i x rest hq
      cases hs
      have hblobs := h.contents.blobs
      rw [hq] at hblobs
      obtain ⟨hx, hrest⟩ := List.forall_mem_cons.mp hblobs
      refine h.setDecompression rfl ?_ ⟨hrest, ?_, h.contents.blocks⟩ h.importer
      · simp [State.pipeline, State.waiting, State.inDecompression, hd, hq]
      · rintro y hy
        cases hy
        exact hx
  | decompressing x =>
    cases hs
    refine h.setDecompression rfl ?_ ⟨h.contents.blobs, by simp, ?_⟩
      (importerOk_concat h.importer _ _)
    · simp [State.pipeline, State.waiting, State.inDecompression, hd]
    · rintro y hy
      rcases List.mem_append.mp hy with hy | hy
      · exact h.contents.blocks y hy
      · cases List.mem_singleton.mp hy
        rw [Chain.blocksOf, ← h.contents.inDecompression x hd]

end

-- The import

theorem filter_numbered (h : Numbered a l) (hle : a ≤ head + 1 ∨ ∃ stop ∈ stop?, stop < a)
    (hblocks : filterOutBlocksAlreadyImportedAndBeyondStopSync stop? head l = blocks) :
    Numbered (head + 1) blocks ∧ (∀ b ∈ blocks, b ∈ l) ∧
      (a + l.length ≤ head + blocks.length + 1 ∨ ∃ stop ∈ stop?, stop < a + l.length) := by
  have hnumbered := h.drop (head + 1 - a)
  unfold filterOutBlocksAlreadyImportedAndBeyondStopSync at hblocks
  rw [h.dropWhile_eq] at hblocks
  cases stop? with
  | none =>
    have hle : a ≤ head + 1 := hle.resolve_right (by simp)
    subst hblocks
    rw [Nat.add_sub_of_le hle] at hnumbered
    refine ⟨hnumbered, fun b hb => List.mem_of_mem_drop hb, .inl ?_⟩
    rw [List.length_drop]
    omega
  | some stop =>
    dsimp only at hblocks
    rw [hnumbered.takeWhile_eq] at hblocks
    subst hblocks
    refine ⟨?_, fun b hb => List.mem_of_mem_drop (List.mem_of_mem_take hb), ?_⟩
    · rcases hle with hle | ⟨_, ⟨⟩, hlt⟩
      · rw [Nat.add_sub_of_le hle] at hnumbered ⊢
        exact hnumbered.take _
      · rw [Nat.sub_eq_zero_of_le (by omega)]
        exact Numbered.nil
    · rcases Nat.lt_or_ge stop (a + l.length) with hlt | hge
      · exact .inr ⟨stop, rfl, hlt⟩
      · rcases hle with hle | ⟨_, ⟨⟩, hlt⟩
        · rw [List.length_take, List.length_drop]
          exact .inl (by omega)
        · omega

section
variable (hl1 : chain.Consecutive n) (h : Inv chain config n head₀ s)
include hl1 h

/-- What the filter leaves of the next finalization follows the head, and the import is done with
the finalization when it is imported. -/
theorem Inv.toImport (hx : s.decompressedBlocksQueue.head? = some x)
    (hblocks : filterOutBlocksAlreadyImportedAndBeyondStopSync
      config.debugForceSyncStopBlockNumber s.head x.data = blocks) :
    Numbered (s.head + 1) blocks ∧ chain.Recovers blocks ∧
      config.Passed (s.head + blocks.length) x.submissionEvents.endBlockNumber := by
  obtain ⟨before, after, hsegment⟩ := h.segment
  obtain ⟨rest, hq⟩ := List.head?_eq_some_iff.mp hx
  have hdata := h.contents.blocks x (by simp [hq])
  obtain ⟨tail, hpipeline⟩ : ∃ tail, s.pipeline = x.submissionEvents :: tail := by
    simp [State.pipeline, hq]
  have heq : chain.finalizations =
      (before ++ s.pruned) ++ x.submissionEvents :: (tail ++ after) := by
    rw [hsegment.eq, hpipeline]
    simp
  have hmem : x.submissionEvents ∈ chain.finalizations := by simp [heq]
  have hlo : x.submissionEvents.startBlockNumber = _ := (heq ▸ hl1.tiles).lo_eq
  have hlength := hl1.data _ hmem
  have hpassed := hsegment.passed (by
    rw [← hsegment.newest, hpipeline]
    simp)
  have hnumbered : Numbered x.submissionEvents.startBlockNumber x.data := by
    rw [hdata]
    exact Numbered.number ..
  rw [← hdata] at hlength
  have hle : x.submissionEvents.startBlockNumber ≤ s.head + 1 ∨
      ∃ stop ∈ config.debugForceSyncStopBlockNumber,
        stop < x.submissionEvents.startBlockNumber := by
    rw [hlo]
    exact hpassed.imp Nat.succ_le_succ fun ⟨stop, hstop, hle⟩ =>
      ⟨stop, hstop, Nat.lt_succ_of_le hle⟩
  obtain ⟨hblocks, hsub, hpassed'⟩ := filter_numbered hnumbered hle hblocks
  refine ⟨hblocks, fun b hb => ⟨_, hmem, hdata ▸ hsub b hb⟩, ?_⟩
  rw [hlength] at hpassed'
  exact hpassed'.imp Nat.le_of_succ_le_succ fun ⟨stop, hstop, hlt⟩ =>
    ⟨stop, hstop, Nat.le_of_lt_succ hlt⟩

omit hl1 in
theorem Inv.importBlocks (hnumbered : Numbered (s.head + 1) blocks)
    (hrecovers : chain.Recovers blocks) (i : ImportTask R T B)
    (hi : State.ImporterOk config { importBlocks s blocks with importer := i }) :
    Inv chain config n head₀ { importBlocks s blocks with importer := i } := by
  obtain ⟨before, after, hsegment⟩ := h.segment
  have hhead : (StateRecovery.importBlocks s blocks).head = s.head + blocks.length :=
    hnumbered.getLast?_eq
  have hs := h.records.head
  refine ⟨⟨before, after, hsegment.eq, hsegment.newest, fun hne => ?_⟩,
    { h.contents with }, h.blobs, hi, ⟨h.records.1, ?_, ?_, ?_⟩⟩
  · exact (hsegment.passed hne).mono (by rw [hhead]; exact Nat.le_add_right ..)
  · rw [hhead, hs, StateRecovery.importBlocks, List.length_append, Nat.add_assoc]
  · refine Numbered.append.mpr ⟨h.records.imported.1, ?_⟩
    rw [Nat.add_right_comm, ← hs]
    exact hnumbered
  · intro b hb
    rcases List.mem_append.mp hb with hb | hb
    · exact h.records.imported.2 b hb
    · exact hrecovers b hb

omit hl1 in
theorem Inv.setImporter (hs : s' = { s with
      importer := i
      importerRunning := r
      stateRootMismatchFound := m
      handed := l })
    (himporter : s'.ImporterOk config)
    (hl : ∀ h ∈ l, Numbered (h.head + 1) h.blocks ∧ chain.Recovers h.blocks) :
    Inv chain config n head₀ s' := by
  subst hs
  exact ⟨h.segment_congr rfl rfl rfl rfl, { h.contents with }, h.blobs, himporter,
    { h.records with handed := hl }⟩

theorem Inv.prune (hx : s.decompressedBlocksQueue.head? = some x)
    (hpassed : config.Passed s.head x.submissionEvents.endBlockNumber) :
    Inv chain config n head₀ { s with
      decompressedBlocksQueue := s.decompressedBlocksQueue.filter
        (¬ ·.submissionEvents.endBlockNumber ≤ x.submissionEvents.endBlockNumber)
      pruned := s.pruned ++ (s.decompressedBlocksQueue.filter
        (·.submissionEvents.endBlockNumber ≤ x.submissionEvents.endBlockNumber)).map
          (·.submissionEvents)
      importer := .idle } := by
  obtain ⟨before, after, hsegment⟩ := h.segment
  obtain ⟨rest, hq⟩ := List.head?_eq_some_iff.mp hx
  obtain ⟨tail, hpipeline⟩ : ∃ tail, s.pipeline =
      x.submissionEvents :: (rest.map (·.submissionEvents) ++ tail) := by
    simp [State.pipeline, hq]
  have htiles := hl1.tiles
  rw [hsegment.eq, hpipeline] at htiles
  have hlater : ∀ y ∈ rest,
      x.submissionEvents.endBlockNumber < y.submissionEvents.endBlockNumber := by
    have htail := (Tiling.tiles_append.mp (Tiling.tiles_append.mp htiles).1).2
    have hrest := (Tiling.tiles_append.mp (Tiling.tiles_append.mp htail).2.2.2).1
    intro y hy
    have hmem := List.mem_map_of_mem (f := (·.submissionEvents)) hy
    exact (hrest.lt_lo hmem).trans_le (hrest.lo_le_hi hmem)
  have hkept : s.decompressedBlocksQueue.filter
      (¬ ·.submissionEvents.endBlockNumber ≤ x.submissionEvents.endBlockNumber) = rest := by
    rw [hq, List.filter_cons_of_neg (by simp), List.filter_eq_self]
    exact fun y hy => by simpa using hlater y hy
  have hgone : s.decompressedBlocksQueue.filter
      (·.submissionEvents.endBlockNumber ≤ x.submissionEvents.endBlockNumber) = [x] := by
    rw [hq, List.filter_cons_of_pos (by simp), List.filter_eq_nil_iff.mpr]
    exact fun y hy => by simpa using hlater y hy
  rw [hkept, hgone]
  have hmoved : (s.pruned ++ [x].map (·.submissionEvents)) ++ State.pipeline { s with
      decompressedBlocksQueue := rest
      pruned := s.pruned ++ [x].map (·.submissionEvents)
      importer := .idle } = s.pruned ++ s.pipeline := by
    simp [State.pipeline, State.inDecompression, State.waiting, hq]
  refine ⟨⟨before, after, ?_, ?_, fun _ => ?_⟩, ⟨h.contents.1, h.contents.2, fun y hy => ?_⟩,
    h.blobs, trivial, { h.records with }⟩
  · rw [hmoved]
    exact hsegment.eq
  · rw [hmoved]
    exact hsegment.newest
  · simpa using hpassed
  · exact h.contents.blocks y (hq ▸ List.mem_cons_of_mem x hy)

theorem Inv.importNextFinalizationAvailable
    (hs : importNextFinalizationAvailable config s = some s') : Inv chain config n head₀ s' := by
  have himporter := h.importer
  unfold State.ImporterOk at himporter
  unfold StateRecovery.importNextFinalizationAvailable at hs
  generalize s.importer = task at hs himporter
  cases task with
  | idle =>
    dsimp only at hs
    split at hs
    · cases hs
    · split at hs
      · cases hs
        exact h
      · cases hs
        exact h.setImporter rfl trivial h.records.handed
  | peeking =>
    dsimp only at hs
    split at hs
    · cases hs
      exact h.setImporter rfl trivial h.records.handed
    · rename_i x hx
      cases hs
      exact h.setImporter rfl hx h.records.handed
  | filtering x =>
    dsimp only at hs himporter
    obtain ⟨hnumbered, hrecovers, hpassed⟩ := h.toImport hl1 himporter rfl
    split at hs
    · rename_i hempty
      cases hs
      rw [List.isEmpty_iff.mp hempty] at hpassed
      exact h.setImporter rfl ⟨himporter, hpassed⟩ h.records.handed
    · rename_i hne
      cases hs
      refine h.setImporter rfl ⟨himporter, mt List.isEmpty_iff.mpr hne, rfl⟩ fun y hy => ?_
      rcases List.mem_append.mp hy with hy | hy
      · exact h.records.handed y hy
      · cases List.mem_singleton.mp hy
        exact ⟨hnumbered, hrecovers⟩
  | importing x blocks =>
    dsimp only at hs himporter
    obtain ⟨hx, hne, hblocks⟩ := himporter
    obtain ⟨hnumbered, hrecovers, hpassed⟩ := h.toImport hl1 hx hblocks.symm
    rw [hnumbered.sorted_eq] at hs
    split at hs
    · cases hs
      exact h.setImporter rfl trivial h.records.handed
    · cases hs
      refine h.importBlocks hnumbered hrecovers _ ⟨hx, ?_⟩
      change config.Passed ((blocks.getLast?.map (·.blockNumber)).getD s.head) _
      rwa [hnumbered.getLast?_eq]
  | verifying x last =>
    cases hs
  | pruning x =>
    cases hs
    exact h.prune hl1 himporter.1 himporter.2

theorem Inv.importFails (hs : importFails k s = some s') : Inv chain config n head₀ s' := by
  have himporter := h.importer
  unfold State.ImporterOk at himporter
  unfold StateRecovery.importFails at hs
  split at hs
  · cases hs
    exact h.setImporter rfl trivial h.records.handed
  · rename_i x blocks hi
    cases hs
    simp only [hi] at himporter
    obtain ⟨hx, hne, hblocks⟩ := himporter
    obtain ⟨hnumbered, hrecovers, -⟩ := h.toImport hl1 hx hblocks.symm
    rw [hnumbered.sorted_eq]
    exact h.importBlocks (hnumbered.take k) (fun b hb => hrecovers b (List.mem_of_mem_take hb)) _
      trivial
  · cases hs
    exact h.setImporter rfl trivial h.records.handed
  · cases hs

omit hl1 in
theorem Inv.assertStateMatches [DecidableEq R]
    (hs : assertStateMatches config root s = some s') : Inv chain config n head₀ s' := by
  have himporter := h.importer
  unfold State.ImporterOk at himporter
  unfold StateRecovery.assertStateMatches at hs
  split at hs
  · rename_i x last hi
    simp only [hi] at himporter
    dsimp only at hs
    split at hs
    · cases hs
      exact h.setImporter rfl himporter h.records.handed
    · split at hs
      all_goals
        cases hs
        exact h.setImporter rfl himporter h.records.handed
  · cases hs

-- Runs

theorem Inv.step [DecidableEq R] (hstart : config.l2StartBlockNumber ≤ head₀ + 1)
    (ha : a ≠ .decompressionFails) (hs : step chain config s a = some s') :
    Inv chain config n head₀ s' := by
  cases a with
  | finalization | incrementDecompressedBlobsQueueLimit
  | resetDecompressedBlobsQueueLimitToOriginalSize =>
    cases hs
    exact h.frame (h.segment_congr rfl rfl rfl rfl) { h.contents with } h.blobs h.importer rfl
  | events => exact h.fetchSubmissionEvents hl1 hstart hs
  | eventsFail =>
    simp only [StateRecovery.step] at hs
    split at hs
    · rename_i he
      cases hs
      refine h.setEvents rfl (h.segment_congr rfl rfl ?_ rfl) h.blobs
      simp [State.newest, he]
    · cases hs
  | blobs => exact h.fetchBlobs hs
  | blobsFail =>
    simp only [StateRecovery.step] at hs
    split at hs
    · rename_i f hb
      cases hs
      refine h.setBlobs rfl ?_ h.contents.blobs trivial
      simp [State.pipeline, State.waiting, State.inDecompression, hb]
    · cases hs
  | decompression => exact h.decompressAndDeserializeBlobs hs
  | decompressionFails => exact absurd rfl ha
  | importer => exact h.importNextFinalizationAvailable hl1 hs
  | importerFails blocks => exact h.importFails hl1 hs
  | stateRoot root => exact h.assertStateMatches hs

end

-- After a mismatch

/-- What the import reads and writes. -/
def State.importSide (s : State R T W B) :
    ImportTask R T B × Bool × List (Handed B) × List (BlockFromL1RecoveredData B) :=
  (s.importer, s.stateRootMismatchFound, s.handed, s.imported)

theorem step_import [DecidableEq R] (hs : step chain config s a = some s') :
    s'.importSide = s.importSide ∨ importNextFinalizationAvailable config s = some s' ∨
      (∃ k, importFails k s = some s') ∨ ∃ root, assertStateMatches config root s = some s' := by
  cases a with
  | importer => exact .inr (.inl hs)
  | importerFails k => exact .inr (.inr (.inl ⟨k, hs⟩))
  | stateRoot root => exact .inr (.inr (.inr ⟨root, hs⟩))
  | _ =>
    simp only [step, fetchSubmissionEvents, fetchBlobs, decompressAndDeserializeBlobs] at hs
    left
    repeat' split at hs
    all_goals cases hs
    all_goals rfl

def State.Halted (s : State R T W B) : Prop :=
  s.stateRootMismatchFound = true ∧ (s.importer = .idle ∨ ∃ x, s.importer = .pruning x)

/-- Only a state root that differs finds a mismatch, and it leaves the importer pruning. -/
theorem halted_step [DecidableEq R] (h : s.stateRootMismatchFound = true → s.Halted)
    (hs : step chain config s a = some s') : (s'.stateRootMismatchFound = true → s'.Halted) ∧
      (s.Halted → s'.Halted ∧ s'.handed = s.handed ∧ s'.imported = s.imported) := by
  obtain hsame | hs | ⟨k, hs⟩ | ⟨root, hs⟩ := step_import hs
  · simp only [State.importSide, Prod.mk.injEq] at hsame
    simpa [State.Halted, hsame] using h
  · simp only [importNextFinalizationAvailable] at hs
    repeat' split at hs
    all_goals cases hs
    all_goals simp_all [State.Halted, importBlocks]
  · unfold importFails at hs
    repeat' split at hs
    all_goals cases hs
    all_goals simp_all [State.Halted, importBlocks]
  · simp only [assertStateMatches] at hs
    repeat' split at hs
    all_goals cases hs
    all_goals simp_all [State.Halted]

theorem State.Halted.reaches [DecidableEq R] (h : s.Halted)
    (hs : Reaches (StateRecovery.step chain config) ok s s') :
    s'.handed = s.handed ∧ s'.imported = s.imported := by
  have hall := hs.invariant
    (I := fun s' => s'.Halted ∧ s'.handed = s.handed ∧ s'.imported = s.imported) ⟨h, rfl, rfl⟩
    fun s₁ a s₂ ih _ hs => by
      obtain ⟨hhalted, hhanded, himported⟩ := (halted_step (fun _ => ih.1) hs).2 ih.1
      exact ⟨hhalted, hhanded.trans ih.2.1, himported.trans ih.2.2⟩
  exact hall.2

theorem startBlockToFetchFromL1_le (h : ∀ r ∈ recoveryStart, r ≤ head + 1) :
    startBlockToFetchFromL1 head recoveryStart window ≤ head + 1 := by
  cases recoveryStart with
  | none => exact Nat.mod_le _ _
  | some r =>
    have := h r rfl
    simp only [startBlockToFetchFromL1, Lookback.minusCoercingUnderflow, Lookback.minus]
    split <;> omega

/-- Blocks are handed to the importer from the one after the head on, and those it imported
follow each other. What was found is a part of the finalizations of L1, of which the last queue
has given away a beginning. No block is imported after a mismatch. -/
theorem recovery_without_gaps [DecidableEq R] (hl1 : chain.Consecutive n)
    (hrecovery : ∀ r ∈ recoveryStart, r ≤ head₀ + 1)
    (hconfig : config.l2StartBlockNumber = startBlockToFetchFromL1 head₀ recoveryStart 256)
    (h : Reaches (step chain config) (fun _ a => a ≠ .decompressionFails)
      (State.init config head₀) s) :
    (∀ x ∈ s.handed, Numbered (x.head + 1) x.blocks ∧ chain.Recovers x.blocks) ∧
      (Numbered (head₀ + 1) s.imported ∧ s.head = head₀ + s.imported.length) ∧
      (∃ before after, chain.finalizations = before ++ (s.pruned ++ s.pipeline) ++ after ∧
        (s.pruned ++ s.pipeline).getLast? = s.newest) ∧
      ∀ s', Reaches (step chain config) (fun _ _ => True) s s' →
        s.stateRootMismatchFound = true → s'.handed = s.handed ∧ s'.imported = s.imported := by
  have hstart : config.l2StartBlockNumber ≤ head₀ + 1 :=
    hconfig ▸ startBlockToFetchFromL1_le hrecovery
  have hinv : Inv chain config n head₀ s :=
    h.invariant (Inv.init chain config n head₀) fun _ _ _ hi ha hs => hi.step hl1 hstart ha hs
  have hhalted : s.stateRootMismatchFound = true → s.Halted :=
    h.invariant (fun hfalse => by cases hfalse) fun _ _ _ hi _ hs => (halted_step hi hs).1
  obtain ⟨before, after, hsegment⟩ := hinv.segment
  exact ⟨hinv.records.handed, ⟨hinv.records.imported.1, hinv.records.head⟩,
    ⟨before, after, hsegment.eq, hsegment.newest⟩,
    fun s' hs' hmismatch => (hhalted hmismatch).reaches hs'⟩

end

-- Two finalizations

def twoFinalizations : Chain Nat Nat Nat Nat Nat where
  finalizations := [⟨[1], 100, 1, 1, 11⟩, ⟨[2], 101, 2, 2, 22⟩]
  getBlobVersionedHashesByTransactionHash t := [t]
  blobByHash v := v
  decodeBlocks w := [w]

def fromGenesis : Config where
  l1EarliestBlockWithFinalizationThatSupportRecovery := 0
  l2StartBlockNumber := 1
  submissionEventsQueueLimit := 10
  compressedBlobsQueueLimit := 10
  targetDecompressedBlobsQueueLimit := 10
  debugForceSyncStopBlockNumber := none

theorem twoFinalizations_consecutive : twoFinalizations.Consecutive 0 :=
  ⟨by simp [twoFinalizations], by
    simp [twoFinalizations, Chain.blocksOf, Chain.decompress, Chain.number,
      Chain.fetchBlobsOfSubmissionEvents]⟩

def fetchBoth : List (Action Nat) :=
  [.finalization, .finalization] ++ List.replicate 8 .events ++
    [.blobs, .blobs, .blobs, .blobsFail] ++ List.replicate 9 .blobs

theorem recovery_without_gaps_two : ∃ s, Reaches (step twoFinalizations fromGenesis)
    (fun _ a => a ≠ .decompressionFails) (State.init fromGenesis 0) s ∧
    s.imported.length = 2 ∧ Numbered 1 s.imported := by
  obtain ⟨s, hs, hlength⟩ : ∃ s, Reaches (step twoFinalizations fromGenesis)
      (fun _ a => a ≠ .decompressionFails) (State.init fromGenesis 0) s ∧ s.imported.length = 2 :=
    exists_reaches (fetchBoth ++ List.replicate 7 .decompression ++
      List.replicate 3 .importer ++ [.importerFails 0] ++
      List.replicate 4 .importer ++ [.stateRoot 11] ++
      List.replicate 5 .importer ++ [.stateRoot 22]) _ (by decide +kernel)
  have hrecovery : ∀ r ∈ some 1, r ≤ 0 + 1 := by simp
  obtain ⟨-, ⟨hnumbered, -⟩, -⟩ :=
    recovery_without_gaps twoFinalizations_consecutive hrecovery rfl hs
  exact ⟨s, hs, hlength, hnumbered⟩

/-- The first finalization is lost when its decompression fails, and the importer gets block 2
after block 0. -/
theorem failed_decompression_skips : twoFinalizations.Consecutive 0 ∧
    fromGenesis.l2StartBlockNumber = startBlockToFetchFromL1 0 (some 1) 256 ∧
    ∃ s, Reaches (step twoFinalizations fromGenesis) (fun _ _ => True)
      (State.init fromGenesis 0) s ∧ s.handed = [⟨0, [⟨2, 2⟩]⟩] :=
  ⟨twoFinalizations_consecutive, rfl, exists_reaches
    (fetchBoth ++ List.replicate 3 .decompression ++ [.decompressionFails] ++
      List.replicate 4 .decompression ++ List.replicate 3 .importer) _ (by decide +kernel)⟩

end StatusNetwork.StateRecovery
