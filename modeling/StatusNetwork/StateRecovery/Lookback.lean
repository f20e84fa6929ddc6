import StatusNetwork.Base.Control
import StatusNetwork.Coordinator.Domain

/-!
# Lookback hashes

Models `StartingBlockCalculator.kt`, `LookBackBlockHashesFetcher.kt` and `BlockIntervalData`: where
the hashes of the last blocks up to the head come from when the recovery starts. Blocks before the
recovery start are read from the execution client, the others from what was fetched from L1. Block
numbers are below `2 ^ 64`.
-/

namespace StatusNetwork.StateRecovery.Lookback

/-- An interval that its constructor accepts. -/
structure BlockInterval extends Coordinator.BlockInterval where
  start_le_end : startBlockNumber ≤ endBlockNumber

/-- startBlockNumber must be less than or equal to endBlockNumber -/
inductive IllegalArgument
  | startAfterEnd (startBlockNumber endBlockNumber : Nat)

def blockInterval (startBlockNumber endBlockNumber : Nat) : Except IllegalArgument BlockInterval :=
  if h : startBlockNumber ≤ endBlockNumber then .ok ⟨⟨startBlockNumber, endBlockNumber⟩, h⟩
  else .error (.startAfterEnd startBlockNumber endBlockNumber)

def BlockInterval.contains (i : BlockInterval) (blockNumber : Nat) : Prop :=
  blockNumber ≥ i.startBlockNumber ∧ blockNumber ≤ i.endBlockNumber

instance (i : BlockInterval) (blockNumber : Nat) : Decidable (i.contains blockNumber) :=
  inferInstanceAs (Decidable (_ ∧ _))

structure FetchingIntervals where
  elInterval : Option BlockInterval
  l1Interval : Option BlockInterval

/-- The difference of two `ULong`s wraps around. -/
def minus (a b : Nat) : Nat := (2 ^ 64 + a - b) % 2 ^ 64

def minusCoercingUnderflow (a b : Nat) : Nat := if a > b then minus a b else 0

section
variable (headBlockNumber : Nat) (recoveryStartBlockNumber : Option Nat) (lookbackWindow : Nat)

def startBlockToFetchFromL1 : Nat :=
  match recoveryStartBlockNumber with
  | none => (headBlockNumber + 1) % 2 ^ 64
  | some recoveryStartBlockNumber =>
    max (minusCoercingUnderflow headBlockNumber lookbackWindow) recoveryStartBlockNumber

def lookbackFetchingIntervals : Except IllegalArgument FetchingIntervals := do
  let lookbackStart := minusCoercingUnderflow headBlockNumber (minus lookbackWindow 1)
  match recoveryStartBlockNumber with
  | none => .ok ⟨some (← blockInterval lookbackStart headBlockNumber), none⟩
  | some recoveryStartBlockNumber =>
    if recoveryStartBlockNumber > headBlockNumber then
      .ok ⟨some (← blockInterval lookbackStart headBlockNumber), none⟩
    else if minus headBlockNumber lookbackWindow > recoveryStartBlockNumber then
      .ok ⟨none, some (← blockInterval lookbackStart headBlockNumber)⟩
    else
      let l1Interval ← blockInterval recoveryStartBlockNumber headBlockNumber
      let elInterval ← blockInterval lookbackStart (minus recoveryStartBlockNumber 1)
      .ok ⟨some elInterval, some l1Interval⟩

end

-- Hashes

/-- A finalization with the numbers and hashes of its blocks. -/
structure Submission (B : Type) where
  endBlockNumber : Nat
  data : List (Nat × B)

variable {B : Type}

def getLookBackHashesFromLocalEl (getBlockHash : Nat → B) (interval : BlockInterval) :
    Nat → Option B :=
  fun blockNumber => if interval.contains blockNumber then some (getBlockHash blockNumber) else none

/-- Of two blocks with one number, the map has the later one. There is no map while the queue does
not reach the end of the interval: it is then read again. -/
def getLookBackHashesFromL1 (queue : List (Submission B)) (interval : BlockInterval) :
    Option (Nat → Option B) :=
  if queue.getLast?.any (·.endBlockNumber ≥ interval.endBlockNumber) then
    some fun blockNumber =>
      if interval.contains blockNumber then
        (queue.flatMap (·.data)).reverse.lookup blockNumber
      else none
  else none

def getLookBackHashes (getBlockHash : Nat → B) (queue : List (Submission B))
    (intervals : FetchingIntervals) : Option (Nat → Option B) := do
  let emptyMap := fun _ => none
  let blockHashesFromEl :=
    intervals.elInterval.elim emptyMap (getLookBackHashesFromLocalEl getBlockHash)
  let blockHashesFromL1 ←
    intervals.l1Interval.elim (some emptyMap) (getLookBackHashesFromL1 queue)
  some fun blockNumber => (blockHashesFromL1 blockNumber).or (blockHashesFromEl blockNumber)

/-- The queue has the blocks from the given one on, up to its last finalization. -/
structure Fetched (hash : Nat → B) (start : Nat) (queue : List (Submission B)) : Prop where
  hashes : ∀ block ∈ queue.flatMap (·.data), block.2 = hash block.1
  complete : ∀ last ∈ queue.getLast?, ∀ b, start ≤ b → b ≤ last.endBlockNumber →
    ∃ block ∈ queue.flatMap (·.data), block.1 = b

-- Completeness

/-- One of the last blocks up to the head. -/
def InWindow (head window b : Nat) : Prop := b ≤ head ∧ head < b + window

def InPart (interval : Option BlockInterval) (b : Nat) : Prop := ∃ i ∈ interval, i.contains b

/-- The intervals are the window, split at the recovery start. -/
structure Splits (head : Nat) (recovery : Option Nat) (window : Nat)
    (intervals : FetchingIntervals) : Prop where
  disjoint : ∀ b, InPart intervals.elInterval b → ¬ InPart intervals.l1Interval b
  whole : ∀ b, InPart intervals.elInterval b ∨ InPart intervals.l1Interval b ↔
    InWindow head window b
  el_below : ∀ r ∈ recovery, ∀ b, InPart intervals.elInterval b → b < r
  l1_above : ∀ r ∈ recovery, ∀ b, InPart intervals.l1Interval b → r ≤ b
  l1_fetched : ∀ b, InPart intervals.l1Interval b → startBlockToFetchFromL1 head recovery window ≤ b

/-- The intervals split the window, and once the queue reaches them there is a map with the hash of
every block of the window. -/
def LookbackComplete (head : Nat) (recovery : Option Nat) (window : Nat) : Prop :=
  ∃ intervals, lookbackFetchingIntervals head recovery window = .ok intervals ∧
    Splits head recovery window intervals ∧
    ∀ (B : Type) (hash : Nat → B) (queue : List (Submission B)),
      Fetched hash (startBlockToFetchFromL1 head recovery window) queue →
      (∀ i ∈ intervals.l1Interval, ∃ last ∈ queue.getLast?,
        i.endBlockNumber ≤ last.endBlockNumber) →
      ∃ blocksHashes, getLookBackHashes hash queue intervals = some blocksHashes ∧
        ∀ b, InWindow head window b → blocksHashes b = some (hash b)

/-- A recovery from the head or before does not start with the window or one block earlier. If the
window is longer than the chain, then it starts with the first block of all. -/
def Fits (head : Nat) (recovery : Option Nat) (window : Nat) : Prop :=
  ∀ r ∈ recovery, r ≤ head →
    if window ≤ head then r + window ≠ head ∧ r + window ≠ head + 1 else r = 0

section
variable {head window start r : Nat} {recovery : Option Nat} {hash : Nat → B}

@[simp] theorem inPart_some :
    InPart (some i) b ↔ i.startBlockNumber ≤ b ∧ b ≤ i.endBlockNumber := by
  simp only [InPart, Option.mem_some_iff, exists_eq_left', BlockInterval.contains, ge_iff_le]

@[simp] theorem not_inPart_none : ¬ InPart none b := by
  rintro ⟨_, ⟨⟩, -⟩

theorem getLookBackHashesFromL1_ok
    (hfetched : Fetched hash start queue)
    (hreached : ∀ i ∈ interval, ∃ last ∈ queue.getLast?, i.endBlockNumber ≤ last.endBlockNumber) :
    ∃ map, interval.elim (some fun _ => none) (getLookBackHashesFromL1 queue) = some map ∧
      (∀ b, InPart interval b → start ≤ b → map b = some (hash b)) ∧
      ∀ b, ¬ InPart interval b → map b = none := by
  cases interval with
  | none => exact ⟨_, rfl, fun b hb => absurd hb not_inPart_none, fun _ _ => rfl⟩
  | some interval =>
    obtain ⟨last, hlast, hend⟩ := hreached interval rfl
    have hstop : queue.getLast?.any (·.endBlockNumber ≥ interval.endBlockNumber) := by
      rw [Option.mem_def.mp hlast]
      simpa using hend
    refine ⟨_, if_pos hstop, ?_, fun b hb => if_neg fun hi => hb ⟨interval, rfl, hi⟩⟩
    rintro b ⟨_, ⟨⟩, hb⟩ hstart
    obtain ⟨block, hblock, rfl⟩ := hfetched.complete last hlast b hstart (Nat.le_trans hb.2 hend)
    rw [if_pos hb]
    cases hfound : (queue.flatMap (·.data)).reverse.lookup block.1 with
    | none =>
      rw [List.lookup_eq_none_iff] at hfound
      have hne := hfound block (List.mem_reverse.mpr hblock)
      simp at hne
    | some found =>
      obtain ⟨before, after, heq, -⟩ := List.lookup_eq_some_iff.mp hfound
      have hmem : (block.1, found) ∈ (queue.flatMap (·.data)).reverse := by simp [heq]
      exact congrArg some (hfetched.hashes _ (List.mem_reverse.mp hmem))

theorem Splits.hashed (h : Splits head recovery window intervals)
    (hfetched : Fetched hash (startBlockToFetchFromL1 head recovery window) queue)
    (hreached : ∀ i ∈ intervals.l1Interval, ∃ last ∈ queue.getLast?,
      i.endBlockNumber ≤ last.endBlockNumber) :
    ∃ blocksHashes, getLookBackHashes hash queue intervals = some blocksHashes ∧
      ∀ b, InWindow head window b → blocksHashes b = some (hash b) := by
  obtain ⟨map, hmap, hhas, hnot⟩ := getLookBackHashesFromL1_ok hfetched hreached
  simp only [getLookBackHashes, hmap, Option.bind_eq_bind, Option.bind_some, Option.some.injEq,
    exists_eq_left']
  intro b hb
  obtain hb | hb := (h.whole b).mpr hb
  · rw [hnot b (h.disjoint b hb)]
    obtain ⟨i, hinterval, hi⟩ := hb
    rw [Option.mem_def.mp hinterval]
    exact if_pos hi
  · rw [hhas b hb (h.l1_fetched b hb)]
    rfl

theorem Splits.lookbackComplete
    (hok : lookbackFetchingIntervals head recovery window = .ok intervals)
    (h : Splits head recovery window intervals) : LookbackComplete head recovery window :=
  ⟨intervals, hok, h, fun _ _ _ hfetched hreached => h.hashed hfetched hreached⟩

-- The intervals

theorem minus_eq (hle : b ≤ a) (ha : a < 2 ^ 64) : minus a b = a - b := by
  unfold minus
  omega

theorem minusCoercingUnderflow_eq (ha : a < 2 ^ 64) : minusCoercingUnderflow a b = a - b := by
  unfold minusCoercingUnderflow
  split
  · rw [minus_eq (by omega) ha]
  · omega

theorem blockInterval_ok (h : a ≤ b) : blockInterval a b = .ok ⟨⟨a, b⟩, h⟩ := dif_pos h

section
variable (hpos : 1 ≤ window) (hwindow : window < 2 ^ 64) (hhead : head < 2 ^ 64)
include hpos hwindow hhead

theorem lookbackStart_eq :
    minusCoercingUnderflow head (minus window 1) = head - (window - 1) := by
  rw [minusCoercingUnderflow_eq hhead, minus_eq hpos hwindow]

theorem complete_el (hbelow : ∀ r ∈ recovery, head < r) :
    LookbackComplete head recovery window := by
  have hstart := lookbackStart_eq hpos hwindow hhead
  have hle : head - (window - 1) ≤ head := Nat.sub_le _ _
  have hok : lookbackFetchingIntervals head recovery window = .ok ⟨some ⟨⟨_, _⟩, hle⟩, none⟩ := by
    cases recovery with
    | none => simp only [lookbackFetchingIntervals, hstart, blockInterval_ok hle, ok_bind]
    | some r =>
      have hlt : r > head := hbelow r rfl
      simp only [lookbackFetchingIntervals, hstart, if_pos hlt, blockInterval_ok hle, ok_bind]
  refine Splits.lookbackComplete hok ⟨by simp, fun b => ?_, fun r hr b hb => ?_, by simp, by simp⟩
  · simp only [inPart_some, not_inPart_none, or_false, InWindow]
    omega
  · exact Nat.lt_of_le_of_lt (inPart_some.mp hb).2 (hbelow r hr)

-- A recovery that starts at the head or before
section
variable (hr : r ≤ head)
include hr

theorem complete_iff_l1 (hwrap : minus head window > r) :
    LookbackComplete head (some r) window ↔ Fits head (some r) window := by
  have hle : head - (window - 1) ≤ head := Nat.sub_le _ _
  have hok : lookbackFetchingIntervals head (some r) window = .ok ⟨none, some ⟨⟨_, _⟩, hle⟩⟩ := by
    simp only [lookbackFetchingIntervals, lookbackStart_eq hpos hwindow hhead,
      if_neg (Nat.not_lt.mpr hr), gt_iff_lt, if_pos hwrap, blockInterval_ok hle, ok_bind]
  have hfits : Fits head (some r) window ↔ r ≤ head - (window - 1) := by
    simp only [Fits, Option.mem_some_iff, forall_eq', hr, true_imp_iff]
    split
    · rename_i hw
      rw [minus_eq hw hhead] at hwrap
      omega
    · omega
  rw [hfits]
  refine ⟨?_, fun hbelow => Splits.lookbackComplete hok ⟨by simp, fun b => ?_, by simp, ?_, ?_⟩⟩
  · rintro ⟨_, hok', hsplits, -⟩
    cases hok.symm.trans hok'
    exact hsplits.l1_above r rfl _ (inPart_some.mpr ⟨Nat.le_refl _, hle⟩)
  · simp only [inPart_some, not_inPart_none, false_or, InWindow]
    omega
  · rintro _ ⟨⟩ b hb
    exact Nat.le_trans hbelow (inPart_some.mp hb).1
  · intro b hb
    simp only [inPart_some, startBlockToFetchFromL1, minusCoercingUnderflow_eq hhead] at hb ⊢
    omega

theorem complete_iff_both (hwrap : ¬ minus head window > r) :
    LookbackComplete head (some r) window ↔ Fits head (some r) window := by
  have hw : window ≤ head := by
    unfold minus at hwrap
    omega
  have hok : lookbackFetchingIntervals head (some r) window = (do
      let elInterval ← blockInterval (head - (window - 1)) (minus r 1)
      .ok ⟨some elInterval, some ⟨⟨r, head⟩, hr⟩⟩) := by
    simp only [lookbackFetchingIntervals, lookbackStart_eq hpos hwindow hhead,
      if_neg (Nat.not_lt.mpr hr), if_neg hwrap, blockInterval_ok hr, ok_bind]
  rw [minus_eq hw hhead] at hwrap
  have hfits : Fits head (some r) window ↔ head + 1 < r + window := by
    simp only [Fits, Option.mem_some_iff, forall_eq', hr, true_imp_iff, if_pos hw]
    omega
  rw [hfits]
  refine ⟨?_, fun hin => ?_⟩
  · rintro ⟨_, hintervals, hsplits, -⟩
    rw [hok, bind_eq_ok] at hintervals
    obtain ⟨_, hel, ⟨⟩⟩ := hintervals
    simp only [blockInterval] at hel
    split at hel
    · rename_i hle
      cases hel
      -- If the block before the recovery start wraps around, then the head is in both parts.
      have hhalf := hsplits.disjoint head
      simp only [inPart_some] at hhalf
      unfold minus at hle hhalf
      omega
    · cases hel
  · have hprevious : minus r 1 = r - 1 := minus_eq (by omega) (by omega)
    have hle : head - (window - 1) ≤ r - 1 := by omega
    rw [hprevious, blockInterval_ok hle] at hok
    refine Splits.lookbackComplete hok ⟨fun b => ?_, fun b => ?_, ?_, ?_, fun b hb => ?_⟩
    · simp only [inPart_some]
      omega
    · simp only [inPart_some, InWindow]
      omega
    · rintro _ ⟨⟩ b hb
      simp only [inPart_some] at hb
      omega
    · rintro _ ⟨⟩ b hb
      exact (inPart_some.mp hb).1
    · simp only [inPart_some, startBlockToFetchFromL1, minusCoercingUnderflow_eq hhead] at hb ⊢
      omega

end

/-- The lookback hashes are complete exactly if the recovery start fits the window. -/
theorem lookback_complete_iff :
    LookbackComplete head recovery window ↔ Fits head recovery window := by
  by_cases hbelow : ∀ r ∈ recovery, head < r
  · have hcomplete := complete_el hpos hwindow hhead hbelow
    exact ⟨fun _ r hr hle => absurd (hbelow r hr) (Nat.not_lt.mpr hle), fun _ => hcomplete⟩
  · simp only [Classical.not_forall, Nat.not_lt] at hbelow
    obtain ⟨r, ⟨⟩, hr⟩ := hbelow
    by_cases hwrap : minus head window > r
    · exact complete_iff_l1 hpos hwindow hhead hr hwrap
    · exact complete_iff_both hpos hwindow hhead hr hwrap

end

theorem lookback_complete_inside : Fits 50 (some 45) 10 ∧ LookbackComplete 50 (some 45) 10 := by
  have hfits : Fits 50 (some 45) 10 := by
    rintro _ ⟨⟩ -
    decide
  exact ⟨hfits, (lookback_complete_iff (by decide) (by decide) (by decide)).mpr hfits⟩

/-- The window is longer than the chain, so the blocks before the recovery start are expected from
L1. A recovery that starts with the window is refused. -/
theorem lookback_incomplete : ¬ LookbackComplete 10 (some 5) 256 ∧
    lookbackFetchingIntervals 50 (some 41) 10 = .error (.startAfterEnd 41 40) := by
  have hok : lookbackFetchingIntervals 10 (some 5) 256 =
    .ok ⟨none, some ⟨⟨0, 10⟩, by decide⟩⟩ := rfl
  refine ⟨?_, rfl⟩
  rintro ⟨_, hok', hsplits, -⟩
  cases hok.symm.trans hok'
  have hle := hsplits.l1_above 5 rfl 0 (inPart_some.mpr (by decide))
  exact absurd hle (by decide)

end

end StatusNetwork.StateRecovery.Lookback
