import StatusNetwork.Coordinator.Domain
import StatusNetwork.Rollup.LineaRollup

/-!
# Submitting blobs

Models `chunkBlobs` of `BlobSubmissionHelper.kt`, the grouper of
`BlobsGrouperForSubmission.kt`, the filter of `L1ShnarfBasedAlreadySubmittedBlobsFilter.kt` and
the submission of one chunk after the other, with the functions of `BlockInterval.kt` they use.
Block numbers are `ULong`s and list indices are `Int`s, which both wrap around.
-/

namespace StatusNetwork.Coordinator

def int (n : Int) : Int := n.bmod (2 ^ 32)

/-- `blockNumber + 1u`, which wraps around. -/
def blockAfter (blockNumber : Nat) : Nat := (blockNumber + 1) % 2 ^ 64

/-- The exceptions, those of `require` with what they complain about. -/
inductive SubmissionFailure
  | targetChunkSize
  | notSorted
  | notConsecutive
  | blobsEmpty
  | inconsistent
  | emptyInterval
  | subListRange
  | noSuchElement
  deriving DecidableEq

-- Intervals

class IsBlockInterval (T : Type) where
  startBlockNumber : T → Nat
  endBlockNumber : T → Nat

open IsBlockInterval (startBlockNumber endBlockNumber)

instance : IsBlockInterval BlockInterval where
  startBlockNumber := BlockInterval.startBlockNumber
  endBlockNumber := BlockInterval.endBlockNumber

def zipWithNext (l : List T) : List (T × T) := l.zip l.tail

section
variable {T : Type} [IsBlockInterval T]

def assertConsecutiveIntervals (intervals : List T) : Except SubmissionFailure Unit := do
  failIf (¬ (zipWithNext intervals).all fun (a, b) =>
    startBlockNumber a ≤ startBlockNumber b) .notSorted
  failIf (¬ (zipWithNext intervals).all fun (a, b) =>
    blockAfter (endBlockNumber a) = startBlockNumber b) .notConsecutive

end

/-- Intervals without gaps between them, by the first block and the last one of each. -/
structure BlockIntervals where
  startingBlockNumber : Nat
  upperBoundaries : List Nat
  deriving DecidableEq

namespace BlockIntervals

def intervalsFrom : (previousBlockNumber : Nat) → (upperBoundaries : List Nat) →
    Except SubmissionFailure (List BlockInterval)
  | _, [] => .ok []
  | previousBlockNumber, bound :: bounds => do
    failIf (bound < previousBlockNumber) .emptyInterval
    let intervals ← intervalsFrom (blockAfter bound) bounds
    .ok (⟨previousBlockNumber, bound⟩ :: intervals)

def toIntervalList (b : BlockIntervals) : Except SubmissionFailure (List BlockInterval) :=
  intervalsFrom b.startingBlockNumber b.upperBoundaries

end BlockIntervals

-- Chunks

def subList (l : List α) (fromIndex toIndex : Int) : Except SubmissionFailure (List α) :=
  if fromIndex < 0 ∨ (l.length : Int) < toIndex ∨ toIndex < fromIndex then .error .subListRange
  else .ok ((l.drop fromIndex.toNat).take (toIndex - fromIndex).toNat)

section
variable {T : Type} [IsBlockInterval T]

/-- The loop of `chunkBlobs`. A round takes at least one blob, so that there are at most as many
rounds as blobs. -/
def chunkLoop (blobsIntervals : List T) (targetChunkSize : Int) :
    (rounds : Nat) → (aggregationsIntervals : List BlockInterval) → (blobsIntervalsIndex : Nat) →
      (chunks : List (List T)) → Except SubmissionFailure (List (List T))
  | 0, _, _, chunks => .ok chunks
  | _, [], _, chunks => .ok chunks
  | rounds + 1, aggregation :: aggregationsIntervals, blobsIntervalsIndex, chunks =>
    if blobsIntervals.length ≤ blobsIntervalsIndex then .ok chunks
    else do
      let candidates ← subList blobsIntervals blobsIntervalsIndex
        (min (int (blobsIntervalsIndex + targetChunkSize)) blobsIntervals.length)
      let chunk := candidates.takeWhile (endBlockNumber · ≤ aggregation.endBlockNumber)
      match chunk.getLast? with
      | none => .error .inconsistent
      | some lastBlob =>
        let index := blobsIntervalsIndex + chunk.length
        if endBlockNumber lastBlob = aggregation.endBlockNumber then
          chunkLoop blobsIntervals targetChunkSize rounds aggregationsIntervals index
            (chunks ++ [chunk])
        else if chunk.length < targetChunkSize ∧ index = blobsIntervals.length then .ok chunks
        else
          chunkLoop blobsIntervals targetChunkSize rounds (aggregation :: aggregationsIntervals)
            index (chunks ++ [chunk])

def chunkBlobs (blobsIntervals : List T) (aggregations : BlockIntervals)
    (targetChunkSize : Int) : Except SubmissionFailure (List (List T)) := do
  failIf (targetChunkSize ≤ 0) .targetChunkSize
  assertConsecutiveIntervals blobsIntervals
  match blobsIntervals.head? with
  | none => .error .blobsEmpty
  | some first => do
    let aggregationsIntervals ← aggregations.toIntervalList
    failIf (startBlockNumber first < aggregations.startingBlockNumber) .inconsistent
    chunkLoop blobsIntervals targetChunkSize blobsIntervals.length aggregationsIntervals 0 []

end

-- The grouper

/-- A blob, with its shnarf and the one before it. Shnarfs are digests. -/
structure BlobRecord (D : Type) where
  startBlockNumber : Nat
  endBlockNumber : Nat
  prevShnarf : D
  expectedShnarf : D
  deriving DecidableEq

instance : IsBlockInterval (BlobRecord D) where
  startBlockNumber := BlobRecord.startBlockNumber
  endBlockNumber := BlobRecord.endBlockNumber

def blobsAggregations (aggregations : BlockIntervals) (firstBlock : Nat) :
    Except SubmissionFailure BlockIntervals :=
  if aggregations.startingBlockNumber < firstBlock then do
    let intervals ← aggregations.toIntervalList
    let kept := intervals.dropWhile (·.endBlockNumber < firstBlock)
    match kept.head? with
    | none => .error .noSuchElement
    | some first => .ok ⟨first.startBlockNumber, kept.map (·.endBlockNumber)⟩
  else .ok aggregations

def groupBlobs (eip4844TargetBlobsPerTx : Nat) (blobsIntervals : List (BlobRecord D))
    (aggregations : BlockIntervals) : Except SubmissionFailure (List (List (BlobRecord D))) :=
  match blobsIntervals.head? with
  | none => .ok []
  | some first => do
    let sortedBlobs :=
      blobsIntervals.insertionSort fun a b => a.startBlockNumber ≤ b.startBlockNumber
    let aggregations ← blobsAggregations aggregations first.startBlockNumber
    chunkBlobs sortedBlobs aggregations (int eip4844TargetBlobsPerTx)

-- The contract

open Rollup (LineaRollup)

section
variable {D : Type} [DecidableEq D]

/-- The filter keeps the blobs after the last one whose shnarf the contract knows. -/
def filterAlreadySubmitted (s : LineaRollup D) (items : List (BlobRecord D)) :
    List (BlobRecord D) :=
  let found := items.filterMap fun blob =>
    if s.blobShnarfExists blob.expectedShnarf ≠ 0 then some blob.endBlockNumber else none
  match found.max? with
  | none => items
  | some blockNumber => items.filter (blockNumber < ·.startBlockNumber)

/-- What the submission of a chunk does to the shnarfs: the contract checks the one before the
first blob and records the one of the last blob. -/
def submitChunk (s : LineaRollup D) (chunk : List (BlobRecord D)) :
    Except (Rollup.Revert D) (LineaRollup D) :=
  match chunk.head?, chunk.getLast? with
  | some first, some last => s.acceptShnarfData first.prevShnarf last.expectedShnarf
  | _, _ => .error .blobSubmissionDataIsMissing

def submitChunks (s : LineaRollup D) (chunks : List (List (BlobRecord D))) :
    Except (Rollup.Revert D) (LineaRollup D) :=
  chunks.foldlM submitChunk s

end

end StatusNetwork.Coordinator
