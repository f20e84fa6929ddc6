import Mathlib.Data.List.Chain
import StatusNetwork.Base.Tiling
import StatusNetwork.Coordinator.BlobSubmission

/-!
# The order of blob submissions

The chunks of consecutive blobs are a beginning of them, cut at the ends of the aggregations
and at the chunk size. The contract knows only the shnarf of the last blob of a chunk, which is
where the filter takes up again: the blobs it keeps are those after the accepted chunks, and
the one before them is known to the contract.
-/

namespace StatusNetwork.Coordinator

open IsBlockInterval (startBlockNumber endBlockNumber)
open Rollup (LineaRollup)
open Tiling (Tiles getLast?_eq tiles_append)

-- Consecutive intervals

section
variable {T : Type} [IsBlockInterval T] {l rest blobs : List T}

/-- The intervals follow each other from the block `n` on. -/
abbrev Consecutive (n : Nat) (l : List T) : Prop :=
  Tiling.Tiles (startBlockNumber · + 1) (endBlockNumber · + 1) n l

abbrev nextBlock (n : Nat) (l : List T) : Nat := Tiling.last (endBlockNumber · + 1) n l

theorem consecutive_cons : Consecutive n (b :: l) ↔
    startBlockNumber b = n ∧ n ≤ endBlockNumber b ∧ Consecutive (endBlockNumber b + 1) l := by
  simp only [Consecutive, Tiling.tiles_cons]
  constructor
  all_goals
    rintro ⟨hlo, hle, h⟩
    exact ⟨by omega, by omega, h⟩

theorem Consecutive.start_le (h : Consecutive n l) (hb : b ∈ l) :
    n ≤ startBlockNumber b ∧ startBlockNumber b ≤ endBlockNumber b := by
  have hlt := Tiles.lt_lo h hb
  have hle := Tiles.lo_le_hi h hb
  exact ⟨by omega, by omega⟩

theorem nextBlock_le (hn : n ≤ k) (hl : ∀ b ∈ l, endBlockNumber b < k) : nextBlock n l ≤ k := by
  induction l generalizing n with
  | nil => exact hn
  | cons b l ih =>
    exact ih (hl b List.mem_cons_self) fun x hx => hl x (List.mem_cons_of_mem b hx)

theorem assertConsecutiveIntervals_ok (h : Consecutive n l)
    (hfit : ∀ b ∈ l, endBlockNumber b < 2 ^ 64) : assertConsecutiveIntervals l = .ok () := by
  have hpairs : ∀ p ∈ zipWithNext l, startBlockNumber p.1 ≤ startBlockNumber p.2 ∧
      blockAfter (endBlockNumber p.1) = startBlockNumber p.2 := by
    induction l generalizing n with
    | nil => simp [zipWithNext]
    | cons a l ih =>
      obtain ⟨hstart, hle, h⟩ := consecutive_cons.mp h
      cases l with
      | nil => simp [zipWithNext]
      | cons b l =>
        obtain ⟨hstart', hle', -⟩ := consecutive_cons.mp h
        have hb : endBlockNumber b < 2 ^ 64 := hfit b (by simp)
        have hrest := ih h fun x hx => hfit x (List.mem_cons_of_mem a hx)
        rintro p (_ | ⟨_, hp⟩)
        · dsimp only
          refine ⟨by omega, ?_⟩
          rw [blockAfter, Nat.mod_eq_of_lt (by omega), hstart']
        · exact hrest p hp
  rw [assertConsecutiveIntervals, failIf_neg, ok_bind, failIf_neg]
  · rw [not_not, List.all_eq_true]
    exact fun p hp => decide_eq_true (hpairs p hp).2
  · rw [not_not, List.all_eq_true]
    exact fun p hp => decide_eq_true (hpairs p hp).1

theorem Consecutive.eq_end (h : Consecutive n l) (hb : b ∈ l) (hb' : b' ∈ l)
    (hstart : startBlockNumber b ≤ endBlockNumber b') (hle : endBlockNumber b' ≤ endBlockNumber b) :
    endBlockNumber b' = endBlockNumber b := by
  induction l generalizing n with
  | nil => cases hb
  | cons c l ih =>
    obtain ⟨-, -, h⟩ := consecutive_cons.mp h
    rcases List.mem_cons.mp hb with rfl | hbl <;> rcases List.mem_cons.mp hb' with rfl | hbl'
    · rfl
    · have := h.start_le hbl'
      omega
    · have := h.start_le hbl
      omega
    · exact ih h hbl hbl'

end

-- Aggregations

namespace BlockIntervals

/-- The boundaries rise from the first block on, and are block numbers. -/
structure Rising (a : BlockIntervals) : Prop where
  sorted : a.upperBoundaries.Pairwise (· < ·)
  start_le : ∀ e ∈ a.upperBoundaries, a.startingBlockNumber ≤ e
  fit : ∀ e ∈ a.upperBoundaries, e < 2 ^ 64

theorem intervalsFrom_map (h : Consecutive n l) (hfit : ∀ a ∈ l, a.endBlockNumber < 2 ^ 64) :
    intervalsFrom n (l.map (·.endBlockNumber)) = .ok l := by
  induction l generalizing n with
  | nil => rfl
  | cons a l ih =>
    obtain ⟨hstart, hle, h⟩ := consecutive_cons.mp h
    change n ≤ a.endBlockNumber at hle
    have hrest : intervalsFrom (blockAfter a.endBlockNumber) (l.map (·.endBlockNumber)) =
        .ok l := by
      cases l with
      | nil => rfl
      | cons b l =>
        have hb : b.endBlockNumber < 2 ^ 64 := hfit b (by simp)
        obtain ⟨-, hle', -⟩ := consecutive_cons.mp h
        change a.endBlockNumber + 1 ≤ b.endBlockNumber at hle'
        rw [blockAfter, Nat.mod_eq_of_lt (by omega)]
        exact ih h fun x hx => hfit x (List.mem_cons_of_mem a hx)
    simp only [List.map_cons, intervalsFrom, hrest, ok_bind, failIf]
    rw [if_neg (Nat.not_lt.mpr hle), ← hstart]
    rfl

theorem exists_intervals (hsorted : bounds.Pairwise (· < ·)) (hle : ∀ e ∈ bounds, n ≤ e) :
    ∃ l : List BlockInterval, Consecutive n l ∧ l.map (·.endBlockNumber) = bounds := by
  induction bounds generalizing n with
  | nil => exact ⟨[], trivial, rfl⟩
  | cons e bounds ih =>
    obtain ⟨hlt, hsorted⟩ := List.pairwise_cons.mp hsorted
    obtain ⟨l, hl, hmap⟩ := ih hsorted fun x hx => hlt x hx
    refine ⟨⟨n, e⟩ :: l, consecutive_cons.mpr ⟨rfl, hle e List.mem_cons_self, hl⟩, ?_⟩
    simp [hmap]

/-- The aggregations kept for blobs from the block `n` on, the first of which `n` is in. -/
structure Kept (aggregations : BlockIntervals) (n : Nat) (kept : BlockIntervals)
    (a : BlockInterval) (l : List BlockInterval) : Prop where
  start_le : kept.startingBlockNumber ≤ n
  intervals : kept.toIntervalList = .ok (a :: l)
  consecutive : ∃ k, Consecutive k (a :: l)
  le_end : n ≤ a.endBlockNumber
  ends : ∀ e ∈ aggregations.upperBoundaries, e < n ∨ e ∈ (a :: l).map (·.endBlockNumber)
  mem_ends : ∀ x ∈ a :: l, x.endBlockNumber ∈ aggregations.upperBoundaries

theorem Rising.kept (h : aggregations.Rising) (hfirst : aggregations.startingBlockNumber ≤ n)
    (hin : ∃ e ∈ aggregations.upperBoundaries, n ≤ e) :
    ∃ kept a l, blobsAggregations aggregations n = .ok kept ∧ Kept aggregations n kept a l := by
  obtain ⟨intervals, hcons, hmap⟩ := exists_intervals h.sorted h.start_le
  have hfit : ∀ a ∈ intervals, a.endBlockNumber < 2 ^ 64 := fun a ha =>
    h.fit _ (hmap ▸ List.mem_map_of_mem ha)
  have hlist : aggregations.toIntervalList = .ok intervals := by
    rw [toIntervalList, ← hmap]
    exact intervalsFrom_map hcons hfit
  obtain ⟨e, he, hne⟩ := hin
  rw [← hmap] at he
  obtain ⟨x, hx, rfl⟩ := List.mem_map.mp he
  by_cases hlt : aggregations.startingBlockNumber < n
  · have hsplit := List.takeWhile_append_dropWhile (p := (·.endBlockNumber < n)) (l := intervals)
    have hpre : ∀ y ∈ intervals.takeWhile (·.endBlockNumber < n), y.endBlockNumber < n :=
      fun y hy => by simpa using List.mem_takeWhile_imp hy
    generalize hkept : intervals.dropWhile (·.endBlockNumber < n) = kept at hsplit
    generalize intervals.takeWhile (·.endBlockNumber < n) = pre at hsplit hpre
    subst hsplit
    obtain ⟨hconsPre, hcons⟩ := tiles_append.mp hcons
    cases kept with
    | nil =>
      have := hpre x (by simpa using hx)
      omega
    | cons a l =>
      have ha : ¬ a.endBlockNumber < n := by
        have := List.head?_dropWhile_not (p := (·.endBlockNumber < n)) (l := pre ++ a :: l)
        simpa [hkept] using this
      have hstart : a.startBlockNumber = _ := (consecutive_cons.mp hcons).1
      refine ⟨⟨a.startBlockNumber, (a :: l).map (·.endBlockNumber)⟩, a, l, ?_, ?_, ?_, ⟨_, hcons⟩,
        Nat.le_of_not_lt ha, fun e he => ?_, fun y hy => ?_⟩
      · rw [blobsAggregations, if_pos hlt, hlist]
        simp only [ok_bind, hkept, List.head?_cons]
      · rw [hstart]
        exact nextBlock_le hfirst hpre
      · rw [hstart]
        exact intervalsFrom_map hcons fun y hy => hfit y (List.mem_append_right pre hy)
      · rw [← hmap, List.map_append, List.mem_append] at he
        refine he.imp_left fun he => ?_
        obtain ⟨y, hy, rfl⟩ := List.mem_map.mp he
        exact hpre y hy
      · rw [← hmap]
        exact List.mem_map_of_mem (List.mem_append_right pre hy)
  · cases intervals with
    | nil => cases hx
    | cons a l =>
      refine ⟨aggregations, a, l, ?_, hfirst, hlist, ⟨_, hcons⟩, ?_, fun e he => ?_, fun y hy => ?_⟩
      · rw [blobsAggregations, if_neg hlt]
      · have := (consecutive_cons.mp hcons).2.1
        change _ ≤ a.endBlockNumber at this
        omega
      · exact .inr (hmap ▸ he)
      · exact hmap ▸ List.mem_map_of_mem hy

end BlockIntervals

-- Chunks

section
variable {i target : Nat} {blobs : List α} (hi : i < blobs.length) (hlen : blobs.length < 2 ^ 31)
include hi hlen

theorem subList_eq (hfit : i + target < 2 ^ 31) :
    subList blobs i (min (int (i + target)) blobs.length) = .ok ((blobs.drop i).take target) := by
  have hint : int (i + target) = i + target := by
    rw [int, Int.bmod_eq_of_le] <;> omega
  rw [hint, subList, if_neg (by omega)]
  have htake : (min ((i : Int) + target) blobs.length - i).toNat =
      min target (blobs.length - i) := by
    omega
  rw [htake]
  simp

/-- The index at which the round ends is negative if it overflows. -/
theorem subList_fits (htarget : target < 2 ^ 31)
    (h : subList blobs i (min (int (i + target)) blobs.length) = .ok r) : i + target < 2 ^ 31 := by
  by_contra hover
  have hint : int (i + target) < 0 := by
    rw [int, Int.bmod_def]
    omega
  rw [subList, if_pos (by omega)] at h
  cases h

end

theorem subList_ok (h : subList l (i : Nat) j = .ok r) : r <+: l.drop i := by
  unfold subList at h
  split at h
  · cases h
  · cases h
    exact List.take_prefix _ _

section
variable {T : Type} [IsBlockInterval T] {rest blobs : List T}

/-- A chunk has blobs on one side of every aggregation end only, and is full unless it ends with
an aggregation. -/
structure Chunk (ends : List Nat) (target : Nat) (chunk : List T) : Prop where
  nonempty : chunk ≠ []
  length_le : chunk.length ≤ target
  within : ∀ e ∈ ends, ¬ ((∃ b ∈ chunk, startBlockNumber b ≤ e) ∧ ∃ b ∈ chunk, e < endBlockNumber b)
  short : chunk.length < target → ∃ b ∈ chunk.getLast?, endBlockNumber b ∈ ends

/-- What a round takes of the blobs from the block `n` on, which is in the aggregation. -/
theorem takeWhile_chunk (h : Consecutive n rest) (hne : rest ≠ []) (hn : n ≤ stop)
    (hin : ∀ b ∈ rest, ¬ (startBlockNumber b ≤ stop ∧ stop < endBlockNumber b))
    (htarget : 0 < target) :
    ∃ chunk rest', (rest.take target).takeWhile (endBlockNumber · ≤ stop) = chunk ∧
      rest = chunk ++ rest' ∧ chunk ≠ [] ∧ chunk.length ≤ target ∧
      (∀ b ∈ chunk, endBlockNumber b ≤ stop) ∧
      (nextBlock n chunk ≤ stop → chunk.length = target ∨ rest' = []) := by
  obtain ⟨rest', hrest⟩ : (rest.take target).takeWhile (endBlockNumber · ≤ stop) <+: rest :=
    (List.takeWhile_prefix _).trans (List.take_prefix _ _)
  generalize hchunk : (rest.take target).takeWhile (endBlockNumber · ≤ stop) = chunk at *
  have hle : ∀ b ∈ chunk, decide (endBlockNumber b ≤ stop) = true := fun b hb =>
    List.mem_takeWhile_imp (p := (endBlockNumber · ≤ stop)) (hchunk ▸ hb)
  have hlength : chunk.length ≤ target := by
    rw [← hchunk]
    exact ((List.takeWhile_prefix _).length_le).trans (List.length_take_le ..)
  refine ⟨_, rest', rfl, hrest.symm, ?_, hlength, fun b hb => of_decide_eq_true (hle b hb), ?_⟩
  · cases rest with
    | nil => exact absurd rfl hne
    | cons b l =>
      obtain ⟨hstart, -, -⟩ := consecutive_cons.mp h
      have hb := hin b List.mem_cons_self
      obtain ⟨t, rfl⟩ := Nat.exists_eq_succ_of_ne_zero (Nat.ne_of_gt htarget)
      have hle : endBlockNumber b ≤ stop := by omega
      simp [← hchunk, hle]
  · -- a blob that follows in the aggregation would have been taken, too
    intro hnext
    subst hrest
    cases rest' with
    | nil => exact .inr rfl
    | cons b l =>
      refine .inl (Nat.le_antisymm hlength (Nat.le_of_not_lt fun hlt => ?_))
      have hstart : startBlockNumber b = nextBlock n chunk :=
        (consecutive_cons.mp (tiles_append.mp h).2).1
      have hb := hin b (by simp)
      have hstop : endBlockNumber b ≤ stop := by omega
      obtain ⟨k, hk⟩ := Nat.exists_eq_add_of_lt hlt
      have htake : (chunk ++ b :: l).take target = chunk ++ b :: l.take k := by
        rw [hk, Nat.add_assoc, List.take_length_add_append]
        rfl
      rw [htake, List.takeWhile_append_of_pos hle] at hchunk
      simp [hstop] at hchunk

theorem chunkLoop_succ (hlt : ¬ blobs.length ≤ i)
    (hround : subList blobs i (min (int (i + target)) blobs.length) = .ok candidates)
    (hchunk : candidates.takeWhile (endBlockNumber · ≤ a.endBlockNumber) = chunk)
    (hlast : chunk.getLast? = some lastBlob) :
    chunkLoop blobs target (rounds + 1) (a :: aggs) i chunks =
      if endBlockNumber lastBlob = a.endBlockNumber then
        chunkLoop blobs target rounds aggs (i + chunk.length) (chunks ++ [chunk])
      else if chunk.length < target ∧ i + chunk.length = blobs.length then .ok chunks
      else chunkLoop blobs target rounds (a :: aggs) (i + chunk.length) (chunks ++ [chunk]) := by
  subst hchunk
  rw [chunkLoop, if_neg hlt, hround, ok_bind]
  simp only [hlast]

/-- The aggregation that the block `n` is in ends at `stop`. -/
def NextEnd (ends : List Nat) (n stop : Nat) : Prop :=
  stop ∈ ends ∧ n ≤ stop ∧ ∀ e ∈ ends, n ≤ e → stop ≤ e

/-- The indices at which rounds start: after the blobs of the round before, which are at most
`target` ones of one aggregation. -/
inductive RoundAt (blobs : List T) (ends : List Nat) (target : Nat) : Nat → Prop
  | first : RoundAt blobs ends target 0
  | next : RoundAt blobs ends target i → blobs[i]? = some b →
      NextEnd ends (startBlockNumber b) stop →
      RoundAt blobs ends target
        (i + (((blobs.drop i).take target).takeWhile (endBlockNumber · ≤ stop)).length)

/-- No round ends at an index that overflows. -/
def Fits (blobs : List T) (ends : List Nat) (target : Nat) : Prop :=
  ∀ i b stop, RoundAt blobs ends target i → blobs[i]? = some b →
    NextEnd ends (startBlockNumber b) stop → i + target < 2 ^ 31

theorem Fits.of_length (h : blobs.length + target < 2 ^ 31) : Fits blobs ends target := by
  intro i b stop _ hb _
  obtain ⟨hi, -⟩ := List.getElem?_eq_some_iff.mp hb
  omega

/-- Where the loop stands: `rest` are the blobs left, from the block `n` on, and `aggs` the
aggregations with an end from there on. -/
structure Cursor (blobs : List T) (ends : List Nat) (i n : Nat) (rest : List T)
    (aggs : List BlockInterval) : Prop where
  index : i + rest.length = blobs.length
  drop : blobs.drop i = rest
  consecutive : Consecutive n rest
  aggregations : ∃ k, Consecutive k aggs
  inside : ∀ a ∈ aggs, ∀ b ∈ rest,
    ¬ (startBlockNumber b ≤ a.endBlockNumber ∧ a.endBlockNumber < endBlockNumber b)
  head : ∀ a ∈ aggs.head?, n ≤ a.endBlockNumber
  passed : ∀ e ∈ ends, e < n ∨ e ∈ aggs.map (·.endBlockNumber)
  mem_ends : ∀ a ∈ aggs, a.endBlockNumber ∈ ends

section
variable {chunk rest' : List T} {a : BlockInterval} {aggs : List BlockInterval}

theorem Cursor.nextEnd (c : Cursor blobs ends i n rest (a :: aggs)) :
    NextEnd ends n a.endBlockNumber := by
  refine ⟨c.mem_ends a List.mem_cons_self, c.head a rfl, fun e he hle => ?_⟩
  rcases c.passed e he with hlt | he
  · omega
  rw [List.map_cons, List.mem_cons] at he
  rcases he with rfl | he
  · rfl
  · obtain ⟨x, hx, rfl⟩ := List.mem_map.mp he
    obtain ⟨k, haggs⟩ := c.aggregations
    have hx : a.endBlockNumber + 1 ≤ x.startBlockNumber ∧ x.startBlockNumber ≤ x.endBlockNumber :=
      (consecutive_cons.mp haggs).2.2.start_le hx
    omega

/-- The blob at the index, and the aggregation it is in. -/
theorem Cursor.at (c : Cursor blobs ends i n rest aggs) (hb : blobs[i]? = some b)
    (hstop : NextEnd ends (startBlockNumber b) stop) :
    ∃ a aggs' rest', aggs = a :: aggs' ∧ rest = b :: rest' ∧ a.endBlockNumber = stop := by
  have hhead : rest.head? = some b := by rw [← c.drop, List.head?_drop, hb]
  obtain ⟨rest', rfl⟩ := List.head?_eq_some_iff.mp hhead
  obtain ⟨rfl, -, -⟩ := consecutive_cons.mp c.consecutive
  obtain ⟨hmem, hle, hleast⟩ := hstop
  cases aggs with
  | nil =>
    have := c.passed stop hmem
    simp only [List.map_nil, List.not_mem_nil, or_false] at this
    omega
  | cons a aggs =>
    obtain ⟨hmem', hle', hleast'⟩ := c.nextEnd
    exact ⟨a, aggs, rest', rfl, rfl, Nat.le_antisymm (hleast' stop hmem hle) (hleast _ hmem' hle')⟩

section
variable (c : Cursor blobs ends i n (chunk ++ rest') (a :: aggs))
include c

theorem Cursor.within (hle : nextBlock n chunk ≤ a.endBlockNumber) :
    Cursor blobs ends (i + chunk.length) (nextBlock n chunk) rest' (a :: aggs) := by
  obtain ⟨hchunk, hrest⟩ := tiles_append.mp c.consecutive
  refine ⟨?_, ?_, hrest, c.aggregations, ?_, by simpa using hle, fun e he => ?_, c.mem_ends⟩
  · rw [← c.index, List.length_append, Nat.add_assoc]
  · rw [← List.drop_drop, c.drop, List.drop_left]
  · exact fun x hx b hb => c.inside x hx b (List.mem_append_right chunk hb)
  · exact (c.passed e he).imp_left fun hlt => hlt.trans_le hchunk.le_last

theorem Cursor.next (heq : nextBlock n chunk = a.endBlockNumber + 1) :
    Cursor blobs ends (i + chunk.length) (nextBlock n chunk) rest' aggs := by
  obtain ⟨hchunk, hrest⟩ := tiles_append.mp c.consecutive
  obtain ⟨k, haggs⟩ := c.aggregations
  have haggs : Consecutive (a.endBlockNumber + 1) aggs := (consecutive_cons.mp haggs).2.2
  refine ⟨?_, ?_, hrest, ⟨_, haggs⟩, ?_, ?_, fun e he => ?_, ?_⟩
  · rw [← c.index, List.length_append, Nat.add_assoc]
  · rw [← List.drop_drop, c.drop, List.drop_left]
  · exact fun x hx b hb =>
      c.inside x (List.mem_cons_of_mem a hx) b (List.mem_append_right chunk hb)
  · cases aggs with
    | nil => simp
    | cons x aggs =>
      have hx : a.endBlockNumber + 1 ≤ x.endBlockNumber := (consecutive_cons.mp haggs).2.1
      rw [heq]
      simpa using hx
  · rcases c.passed e he with hlt | he
    · exact .inl (hlt.trans_le hchunk.le_last)
    · rw [List.map_cons, List.mem_cons] at he
      exact he.imp_left fun he => by omega
  · exact fun x hx => c.mem_ends x (List.mem_cons_of_mem a hx)

/-- No aggregation ends between two blobs up to the end of the first one left. -/
theorem Cursor.not_crossing (hstop : ∀ b ∈ chunk, endBlockNumber b ≤ a.endBlockNumber)
    (he : e ∈ ends) :
    ¬ ((∃ b ∈ chunk, startBlockNumber b ≤ e) ∧ ∃ b ∈ chunk, e < endBlockNumber b) := by
  rintro ⟨⟨b, hb, hbe⟩, ⟨b', hb', hbe'⟩⟩
  have hn := (c.consecutive.start_le (List.mem_append_left rest' hb)).1
  have hb' := hstop b' hb'
  have := c.nextEnd.2.2 e he (by omega)
  omega

end

end

section
variable (hlen : blobs.length < 2 ^ 31) (htarget : 0 < target)
include hlen htarget

/-- One round: it is the last one, or it adds a chunk and goes on. -/
theorem Cursor.round (hne : rest ≠ []) (c : Cursor blobs ends i n rest (a :: aggs))
    (hfit : i + target < 2 ^ 31) (hrounds : rest.length ≤ rounds + 1) (chunks : List (List T)) :
    let chunk := (rest.take target).takeWhile (endBlockNumber · ≤ a.endBlockNumber)
    (chunkLoop blobs target (rounds + 1) (a :: aggs) i chunks = .ok chunks ∧
      i + chunk.length = blobs.length) ∨
    ∃ n' rest' aggs', Cursor blobs ends (i + chunk.length) n' rest' aggs' ∧
      rest'.length ≤ rounds ∧ Chunk ends target chunk ∧
      chunkLoop blobs target (rounds + 1) (a :: aggs) i chunks =
        chunkLoop blobs target rounds aggs' (i + chunk.length) (chunks ++ [chunk]) := by
  have hindex := c.index
  have hpos := List.length_pos_iff.mpr hne
  obtain ⟨chunk, rest', hchunk, rfl, hnonempty, hlength, hstop, hfull⟩ :=
    takeWhile_chunk c.consecutive hne (c.head a rfl) (c.inside a List.mem_cons_self) htarget
  obtain ⟨lastBlob, hlast, hnext⟩ :
      ∃ b, chunk.getLast? = some b ∧ endBlockNumber b + 1 = nextBlock n chunk :=
    getLast?_eq hnonempty
  have hround := subList_eq (by omega : i < blobs.length) hlen hfit
  rw [c.drop] at hround
  have hrounds' : rest'.length ≤ rounds := by
    have := List.length_pos_iff.mpr hnonempty
    rw [List.length_append] at hrounds
    omega
  have hle := hstop lastBlob (List.mem_of_getLast? hlast)
  have hnew (hshort : chunk.length < target → endBlockNumber lastBlob ∈ ends) :
      Chunk ends target chunk :=
    ⟨hnonempty, hlength, fun e he => c.not_crossing hstop he,
      fun hlt => ⟨lastBlob, hlast, hshort hlt⟩⟩
  dsimp only
  rw [hchunk, chunkLoop_succ (by omega) hround hchunk hlast]
  split
  · rename_i heq
    exact .inr ⟨_, _, _, c.next (by omega), hrounds',
      hnew fun _ => heq ▸ c.mem_ends a List.mem_cons_self, rfl⟩
  · split
    · rename_i hlast
      exact .inl ⟨rfl, hlast.2⟩
    · rename_i hmore
      refine .inr ⟨_, _, _, c.within (by omega), hrounds', hnew fun hshort => absurd ?_ hmore, rfl⟩
      rcases hfull (by omega) with hfull | rfl
      · omega
      · rw [List.append_nil] at hindex
        exact ⟨by omega, hindex⟩

theorem chunkLoop_ok (hfits : Fits blobs ends target) (hi : RoundAt blobs ends target i)
    (c : Cursor blobs ends i n rest aggs) (hrounds : rest.length ≤ rounds)
    (chunks : List (List T)) :
    ∃ new, chunkLoop blobs target rounds aggs i chunks = .ok (chunks ++ new) ∧
      ∀ c ∈ new, Chunk ends target c := by
  induction rounds generalizing aggs i chunks rest n with
  | zero =>
    refine ⟨[], ?_, by simp⟩
    rw [chunkLoop, List.append_nil]
  | succ rounds ih =>
    cases aggs with
    | nil =>
      refine ⟨[], ?_, by simp⟩
      rw [chunkLoop, List.append_nil]
      simp
    | cons a aggs =>
      cases rest with
      | nil =>
        have hindex := c.index
        refine ⟨[], ?_, by simp⟩
        rw [chunkLoop, if_pos (by simp at hindex; omega), List.append_nil]
      | cons b rest =>
        have hb : blobs[i]? = some b := by rw [← List.head?_drop, c.drop, List.head?_cons]
        obtain ⟨rfl, -, -⟩ := consecutive_cons.mp c.consecutive
        have hstop := c.nextEnd
        rcases c.round hlen htarget (by simp) (hfits i b _ hi hb hstop) hrounds chunks with
          ⟨hdone, -⟩ | ⟨n', rest', aggs', c', hrounds', hchunk, hnext⟩
        · exact ⟨[], by simpa using hdone, by simp⟩
        · have hi' := hi.next hb hstop
          rw [c.drop] at hi'
          obtain ⟨new, hnew, hchunks⟩ := ih hi' c' hrounds' _
          refine ⟨_ :: new, by rw [hnext, hnew, List.append_assoc]; rfl, ?_⟩
          exact List.forall_mem_cons.mpr ⟨hchunk, hchunks⟩

section
variable (htarget' : target < 2 ^ 31)
include htarget'

omit htarget in
theorem Cursor.fits (c : Cursor blobs ends i n (b :: rest) (a :: aggs))
    (h : chunkLoop blobs target (rounds + 1) (a :: aggs) i chunks = .ok out) :
    i + target < 2 ^ 31 := by
  have hindex := c.index
  rw [List.length_cons] at hindex
  rw [chunkLoop, if_neg (by omega)] at h
  obtain ⟨candidates, hsub, -⟩ := bind_eq_ok.mp h
  exact subList_fits (by omega) hlen htarget' hsub

/-- A loop that returns goes through every round. -/
theorem chunkLoop_fits (c : Cursor blobs ends 0 n blobs aggs)
    (h : chunkLoop blobs target blobs.length aggs 0 [] = .ok out) : Fits blobs ends target := by
  have hreached {i} (hi : RoundAt blobs ends target i) : i = blobs.length ∨
      ∃ n rest aggs rounds chunks out, Cursor blobs ends i n rest aggs ∧ rest.length ≤ rounds ∧
        chunkLoop blobs target rounds aggs i chunks = .ok out := by
    induction hi with
    | first => exact .inr ⟨_, _, _, _, _, _, c, le_rfl, h⟩
    | @next i b stop _ hb hstop ih =>
      obtain rfl | ⟨n, rest, aggs, rounds, chunks, out, c, hrounds, h⟩ := ih
      · simp at hb
      · obtain ⟨a, aggs, rest, rfl, rfl, rfl⟩ := c.at hb hstop
        have hpos : 0 < (b :: rest).length := by simp
        obtain ⟨rounds, rfl⟩ := Nat.exists_eq_succ_of_ne_zero (Nat.ne_of_gt (hpos.trans_le hrounds))
        rw [c.drop]
        rcases c.round hlen htarget (by simp) (c.fits hlen htarget' h) hrounds chunks with
          ⟨-, hend⟩ | ⟨_, _, _, c', hrounds', -, hnext⟩
        · exact .inl hend
        · exact .inr ⟨_, _, _, _, _, _, c', hrounds', hnext.symm.trans h⟩
  intro i b stop hi hb hstop
  obtain rfl | ⟨n, rest, aggs, rounds, chunks, out, c, hrounds, h⟩ := hreached hi
  · simp at hb
  · obtain ⟨a, aggs, rest, rfl, rfl, rfl⟩ := c.at hb hstop
    have hpos : 0 < (b :: rest).length := by simp
    obtain ⟨rounds, rfl⟩ := Nat.exists_eq_succ_of_ne_zero (Nat.ne_of_gt (hpos.trans_le hrounds))
    exact c.fits hlen htarget' h

end

end

theorem chunkLoop_prefix (h : chunkLoop blobs target rounds aggs i chunks = .ok out) :
    ∃ new, out = chunks ++ new ∧ new.flatten <+: blobs.drop i ∧ ∀ c ∈ new, c ≠ [] := by
  induction rounds generalizing aggs i chunks with
  | zero =>
    cases h
    exact ⟨[], by simp, List.nil_prefix, by simp⟩
  | succ rounds ih =>
    have hnone (h : (Except.ok chunks : Except SubmissionFailure _) = .ok out) :
        ∃ new, out = chunks ++ new ∧ new.flatten <+: blobs.drop i ∧ ∀ c ∈ new, c ≠ [] := by
      cases h
      exact ⟨[], by simp, List.nil_prefix, by simp⟩
    cases aggs with
    | nil =>
      rw [chunkLoop] at h
      · exact hnone h
      · simp
    | cons a aggs =>
      rw [chunkLoop] at h
      split at h
      · exact hnone h
      · obtain ⟨candidates, hsub, h⟩ := bind_eq_ok.mp h
        have hbegin : candidates.takeWhile (endBlockNumber · ≤ a.endBlockNumber) <+: blobs.drop i :=
          (List.takeWhile_prefix _).trans (subList_ok hsub)
        generalize candidates.takeWhile (endBlockNumber · ≤ a.endBlockNumber) = chunk at h hbegin
        obtain ⟨rest', hrest⟩ := hbegin
        cases hlast : chunk.getLast? with
        | none => simp [hlast] at h
        | some lastBlob =>
          simp only [hlast] at h
          have hadd {aggs' : List BlockInterval} (h : chunkLoop blobs target rounds aggs'
              (i + chunk.length) (chunks ++ [chunk]) = .ok out) :
              ∃ new, out = chunks ++ new ∧ new.flatten <+: blobs.drop i ∧ ∀ c ∈ new, c ≠ [] := by
            obtain ⟨new, rfl, hflat, hne⟩ := ih h
            rw [← List.drop_drop, ← hrest, List.drop_left] at hflat
            refine ⟨chunk :: new, by simp, ?_, ?_⟩
            · rw [← hrest]
              exact (List.prefix_append_right_inj chunk).mpr hflat
            · rintro x (_ | ⟨_, hx⟩)
              · rintro rfl
                cases hlast
              · exact hne x hx
          split at h
          · exact hadd h
          · split at h
            · exact hnone h
            · exact hadd h

end

-- The grouper

theorem flatten_take_begins (chunks : List (List α)) (k : Nat) :
    (chunks.take k).flatten <+: chunks.flatten := by
  conv_rhs => rw [← List.take_append_drop k chunks, List.flatten_append]
  exact List.prefix_append _ _

section
variable {D : Type} {blobs : List (BlobRecord D)}

theorem sorted_eq (h : Consecutive n blobs) :
    blobs.insertionSort (fun a b => a.startBlockNumber ≤ b.startBlockNumber) = blobs := by
  have hsorted : blobs.Pairwise fun a b => a.startBlockNumber ≤ b.startBlockNumber :=
    (Tiles.pairwise h).imp fun hlt => Nat.le_of_succ_le_succ hlt.le
  exact hsorted.insertionSort_eq

theorem groupBlobs_eq (h : Consecutive n blobs) (hne : blobs ≠ [])
    (hblobs : ∀ b ∈ blobs, b.endBlockNumber < 2 ^ 64) (haggs : aggregations.Rising)
    (hends : ∀ e ∈ aggregations.upperBoundaries,
      (∃ b ∈ blobs, b.startBlockNumber ≤ e ∧ e ≤ b.endBlockNumber) →
        ∃ b ∈ blobs, b.endBlockNumber = e) (hstart : aggregations.startingBlockNumber ≤ n)
    (hfirst : ∃ e ∈ aggregations.upperBoundaries, n ≤ e)
    (htarget : 0 < target ∧ target < 2 ^ 31) :
    ∃ aggs, Cursor blobs aggregations.upperBoundaries 0 n blobs aggs ∧
      groupBlobs target blobs aggregations = chunkLoop blobs target blobs.length aggs 0 [] := by
  obtain ⟨first, hhead, hn⟩ : ∃ b, blobs.head? = some b ∧ b.startBlockNumber = n := by
    cases blobs with
    | nil => exact absurd rfl hne
    | cons b l => exact ⟨b, rfl, (consecutive_cons.mp h).1⟩
  obtain ⟨kept, a, l, hkept, hk⟩ := haggs.kept hstart hfirst
  have hcursor : Cursor blobs aggregations.upperBoundaries 0 n blobs (a :: l) := by
    refine ⟨Nat.zero_add _, rfl, h, hk.consecutive, ?_, by simpa using hk.le_end, hk.ends,
      hk.mem_ends⟩
    rintro x hx b hb ⟨hle, hlt⟩
    obtain ⟨b', hb', hend⟩ := hends _ (hk.mem_ends x hx) ⟨b, hb, hle, hlt.le⟩
    change x.endBlockNumber < b.endBlockNumber at hlt
    have heq : b'.endBlockNumber = b.endBlockNumber :=
      Consecutive.eq_end h hb hb' (hle.trans_eq hend.symm) (hend.trans_lt hlt).le
    omega
  refine ⟨a :: l, hcursor, ?_⟩
  have hint : int target = target := by
    rw [int, Int.bmod_eq_of_le] <;> omega
  have hnot : ¬ ((target : Int) ≤ 0) := by omega
  have hnot' : ¬ startBlockNumber first < kept.startingBlockNumber := by
    change ¬ first.startBlockNumber < _
    have := hk.start_le
    omega
  simp only [groupBlobs, hhead, sorted_eq h, hn, hkept, ok_bind, hint, chunkBlobs,
    failIf, if_neg hnot, assertConsecutiveIntervals_ok h hblobs, hk.intervals]
  rw [if_neg hnot']
  rfl

theorem groupBlobs_prefix (h : Consecutive n blobs)
    (hs : groupBlobs target blobs aggregations = .ok chunks) :
    chunks.flatten <+: blobs ∧ ∀ c ∈ chunks, c ≠ [] := by
  unfold groupBlobs at hs
  split at hs
  · cases hs
    exact ⟨List.nil_prefix, by simp⟩
  · simp only [sorted_eq h, chunkBlobs, bind_eq_ok] at hs
    obtain ⟨_, -, -, -, -, -, hs⟩ := hs
    split at hs
    · cases hs
    · simp only [bind_eq_ok] at hs
      obtain ⟨_, -, -, -, hs⟩ := hs
      obtain ⟨new, rfl, hbegin, hne⟩ := chunkLoop_prefix hs
      exact ⟨hbegin, hne⟩

end

-- The contract

section
variable {D : Type} [DecidableEq D] {s s' s₀ : LineaRollup D}
  {done rest blobs chunk : List (BlobRecord D)}

/-- Blobs that can be submitted: each follows the one before it, the first follows a blob that the
contract knows, and their shnarfs are new. -/
structure Ready (s : LineaRollup D) (blobs : List (BlobRecord D)) : Prop where
  parent : ∀ b ∈ blobs.head?, s.blobShnarfExists b.prevShnarf ≠ 0
  chained : blobs.IsChain fun a b => b.prevShnarf = a.expectedShnarf
  fresh : ∀ b ∈ blobs, s.blobShnarfExists b.expectedShnarf = 0
  distinct : (blobs.map (·.expectedShnarf)).Nodup

/-- Nothing was submitted, or the last blob is known to the contract. -/
def Known (s : LineaRollup D) (done : List (BlobRecord D)) : Prop :=
  done = [] ∨ ∃ b ∈ done.getLast?, s.blobShnarfExists b.expectedShnarf ≠ 0

theorem submitChunk_ok (h : Ready s (chunk ++ rest)) (hne : chunk ≠ []) :
    ∃ s', submitChunk s chunk = .ok s' ∧ Ready s' rest ∧ Known s' chunk := by
  obtain ⟨first, hhead⟩ : ∃ b, chunk.head? = some b := by
    cases chunk with
    | nil => exact absurd rfl hne
    | cons b l => exact ⟨b, rfl⟩
  obtain ⟨last, hlast⟩ : ∃ b, chunk.getLast? = some b :=
    Option.ne_none_iff_exists'.mp (mt List.getLast?_eq_none_iff.mp hne)
  have hmem := List.mem_of_getLast? hlast
  have hparent := h.parent first (by simp [hhead])
  have hfresh := h.fresh last (List.mem_append_left rest hmem)
  obtain ⟨-, hchained, hjoin⟩ := List.isChain_append.mp h.chained
  have hdistinct := h.distinct
  rw [List.map_append, List.nodup_append'] at hdistinct
  refine ⟨{ s with
      blobShnarfExists :=
        Function.update s.blobShnarfExists last.expectedShnarf Rollup.SHNARF_EXISTS_DEFAULT_VALUE },
    ?_, ⟨fun b hb => ?_, hchained, fun b hb => ?_, hdistinct.2.1⟩, .inr ⟨last, hlast, ?_⟩⟩
  · simp only [submitChunk, hhead, hlast, LineaRollup.acceptShnarfData, failIf]
    rw [if_neg hparent, if_neg (not_not.mpr hfresh)]
    rfl
  · rw [hjoin last hlast b hb]
    simp [Rollup.SHNARF_EXISTS_DEFAULT_VALUE]
  · have hne : b.expectedShnarf ≠ last.expectedShnarf := fun he =>
      hdistinct.2.2 (List.mem_map_of_mem hmem) (he ▸ List.mem_map_of_mem hb)
    simpa [hne] using h.fresh b (List.mem_append_right chunk hb)
  · simp [Rollup.SHNARF_EXISTS_DEFAULT_VALUE]

theorem submitChunks_ok (h : Ready s (chunks.flatten ++ rest)) (hne : ∀ c ∈ chunks, c ≠ [])
    (hknown : Known s done) :
    ∃ s', submitChunks s chunks = .ok s' ∧ Ready s' rest ∧ Known s' (done ++ chunks.flatten) := by
  induction chunks generalizing s done with
  | nil => exact ⟨s, rfl, h, by simpa using hknown⟩
  | cons chunk chunks ih =>
    rw [List.flatten_cons, List.append_assoc] at h
    obtain ⟨s₁, hsubmit, hready, hlast⟩ := submitChunk_ok h (hne chunk List.mem_cons_self)
    have hknown₁ : Known s₁ (done ++ chunk) := by
      obtain hnil | ⟨b, hb, hexists⟩ := hlast
      · exact absurd hnil (hne chunk List.mem_cons_self)
      · exact .inr ⟨b, by simp [List.getLast?_append, Option.mem_def.mp hb], hexists⟩
    obtain ⟨s', hrest, hready', hknown'⟩ :=
      ih hready (fun c hc => hne c (List.mem_cons_of_mem chunk hc)) hknown₁
    refine ⟨s', ?_, hready', ?_⟩
    · rw [submitChunks, List.foldlM_cons, hsubmit]
      exact hrest
    · rwa [List.flatten_cons, ← List.append_assoc]

omit [DecidableEq D] in
/-- The filter takes up where the submission stopped. -/
theorem filterAlreadySubmitted_eq (h : Consecutive n (done ++ rest)) (hknown : Known s done)
    (hfresh : ∀ b ∈ rest, s.blobShnarfExists b.expectedShnarf = 0) :
    filterAlreadySubmitted s (done ++ rest) = rest := by
  obtain ⟨hdone, hrest⟩ := tiles_append.mp h
  have hnone : rest.filterMap (fun blob => if s.blobShnarfExists blob.expectedShnarf ≠ 0 then
      some blob.endBlockNumber else none) = [] := by
    rw [List.filterMap_eq_nil_iff]
    intro b hb
    simp [hfresh b hb]
  rcases hknown with rfl | ⟨last, hlast, hexists⟩
  · rw [filterAlreadySubmitted, List.nil_append, hnone]
    rfl
  · have hmem := List.mem_of_getLast? hlast
    obtain ⟨b, hb, hnext⟩ : ∃ b, done.getLast? = some b ∧ b.endBlockNumber + 1 = nextBlock n done :=
      getLast?_eq (List.ne_nil_of_mem hmem)
    obtain rfl : last = b := Option.some.inj ((Option.mem_def.mp hlast).symm.trans hb)
    have hle (x : BlobRecord D) (hx : x ∈ done) : x.startBlockNumber ≤ x.endBlockNumber ∧
        x.endBlockNumber ≤ last.endBlockNumber := by
      have hend : x.endBlockNumber + 1 ≤ nextBlock n done := hdone.hi_le_last hx
      exact ⟨(Consecutive.start_le hdone hx).2, by omega⟩
    have hmax : ((done ++ rest).filterMap fun blob =>
        if s.blobShnarfExists blob.expectedShnarf ≠ 0 then some blob.endBlockNumber
        else none).max? = some last.endBlockNumber := by
      rw [List.filterMap_append, hnone, List.append_nil, List.max?_eq_some_iff]
      refine ⟨List.mem_filterMap.mpr ⟨last, hmem, if_pos hexists⟩, fun e he => ?_⟩
      obtain ⟨x, hx, he⟩ := List.mem_filterMap.mp he
      split at he
      · cases he
        exact (hle x hx).2
      · cases he
    have hdropped : done.filter (last.endBlockNumber < ·.startBlockNumber) = [] := by
      rw [List.filter_eq_nil_iff]
      intro x hx
      have := hle x hx
      simp only [decide_eq_true_eq]
      omega
    have hkept : rest.filter (last.endBlockNumber < ·.startBlockNumber) = rest := by
      rw [List.filter_eq_self]
      intro x hx
      have : nextBlock n done ≤ x.startBlockNumber := (Consecutive.start_le hrest hx).1
      simp only [decide_eq_true_eq]
      omega
    rw [filterAlreadySubmitted, hmax]
    simp only [List.filter_append, hdropped, hkept, List.nil_append]

/-- Chunks that are a beginning of blobs ready for submission are accepted one after the other. -/
theorem Ready.submit {chunks : List (List (BlobRecord D))} (h : Ready s blobs)
    (hbegin : chunks.flatten <+: blobs) (hne : ∀ c ∈ chunks, c ≠ []) (hknown : Known s done)
    (k : Nat) :
    ∃ s', submitChunks s (chunks.take k) = .ok s' ∧
      Ready s' (blobs.drop (chunks.take k).flatten.length) ∧
      Known s' (done ++ (chunks.take k).flatten) ∧ (chunks.take k).flatten <+: blobs := by
  obtain ⟨rest, rfl⟩ := (flatten_take_begins chunks k).trans hbegin
  obtain ⟨s', hsubmit, hready, hknown'⟩ :=
    submitChunks_ok h (fun c hc => hne c (List.mem_of_mem_take hc)) hknown
  exact ⟨s', hsubmit, by rwa [List.drop_left], hknown', List.prefix_append _ _⟩

/-- If no index overflows, the chunks of consecutive blobs, and what is submitted after any part of
them was accepted. -/
theorem blobs_submitted_in_order {target : Nat} {aggregations : BlockIntervals}
    (h : Consecutive n blobs) (hne : blobs ≠ [])
    (hblobs : ∀ b ∈ blobs, b.endBlockNumber < 2 ^ 64) (haggs : aggregations.Rising)
    (hends : ∀ e ∈ aggregations.upperBoundaries,
      (∃ b ∈ blobs, b.startBlockNumber ≤ e ∧ e ≤ b.endBlockNumber) →
        ∃ b ∈ blobs, b.endBlockNumber = e)
    (hstart : aggregations.startingBlockNumber ≤ n)
    (hfirst : ∃ e ∈ aggregations.upperBoundaries, n ≤ e)
    (htarget : 0 < target ∧ target < 2 ^ 31) (hlen : blobs.length < 2 ^ 31) :
    (∃ chunks, groupBlobs target blobs aggregations = .ok chunks ∧ chunks.flatten <+: blobs ∧
      (∀ c ∈ chunks, Chunk aggregations.upperBoundaries target c) ∧
      ∀ s k, Ready s blobs → ∃ s', submitChunks s (chunks.take k) = .ok s' ∧
        filterAlreadySubmitted s' blobs = blobs.drop (chunks.take k).flatten.length ∧
        ∀ target' aggregations' chunks' j,
          groupBlobs target' (filterAlreadySubmitted s' blobs) aggregations' = .ok chunks' →
            ∃ s'', submitChunks s' (chunks'.take j) = .ok s'') ↔
      Fits blobs aggregations.upperBoundaries target := by
  obtain ⟨aggs, hcursor, hloop⟩ := groupBlobs_eq h hne hblobs haggs hends hstart hfirst htarget
  constructor
  · rintro ⟨chunks, hgroup, -⟩
    exact chunkLoop_fits hlen htarget.1 htarget.2 hcursor (hloop.symm.trans hgroup)
  intro hfits
  obtain ⟨chunks, hchunks', hchunks⟩ := chunkLoop_ok hlen htarget.1 hfits .first hcursor le_rfl []
  have hgroup : groupBlobs target blobs aggregations = .ok chunks := hloop.trans hchunks'
  obtain ⟨hbegin, -⟩ := groupBlobs_prefix h hgroup
  refine ⟨chunks, hgroup, hbegin, hchunks, fun s k hready => ?_⟩
  obtain ⟨s', hsubmit, hready', hknown, rest, hrest⟩ :=
    hready.submit hbegin (fun c hc => (hchunks c hc).nonempty) (.inl rfl) k
  have hdrop : blobs.drop (chunks.take k).flatten.length = rest := by
    rw [← hrest, List.drop_left]
  rw [hdrop] at hready' ⊢
  have hfilter : filterAlreadySubmitted s' blobs = rest := by
    rw [← hrest] at h ⊢
    exact filterAlreadySubmitted_eq h hknown hready'.fresh
  refine ⟨s', hsubmit, hfilter, fun target' aggregations' chunks' j hgroup' => ?_⟩
  rw [hfilter] at hgroup'
  rw [← hrest] at h
  obtain ⟨hbegin', hne'⟩ := groupBlobs_prefix (tiles_append.mp h).2 hgroup'
  obtain ⟨s'', hsubmit', -⟩ := hready'.submit hbegin' hne' hknown j
  exact ⟨s'', hsubmit'⟩

def threeBlobs : List (BlobRecord Nat) := [⟨0, 9, 1, 2⟩, ⟨10, 19, 2, 3⟩, ⟨20, 29, 3, 4⟩]

def twoAggregations : BlockIntervals := ⟨0, [9, 29]⟩

theorem threeBlobs_consecutive : Consecutive 0 threeBlobs := by
  simp [threeBlobs, startBlockNumber, endBlockNumber]

theorem twoAggregations_rising : twoAggregations.Rising :=
  ⟨by simp [twoAggregations], by simp [twoAggregations], by simp [twoAggregations]⟩

theorem twoAggregations_match : ∀ e ∈ twoAggregations.upperBoundaries,
    (∃ b ∈ threeBlobs, b.startBlockNumber ≤ e ∧ e ≤ b.endBlockNumber) →
      ∃ b ∈ threeBlobs, b.endBlockNumber = e := by
  simp [twoAggregations, threeBlobs]

/-- A contract whose genesis shnarf is the one before the first blob. -/
def deployedRollup : LineaRollup Nat :=
  (LineaRollup.initialized ⟨⟨(· + ·), fun _ => 0⟩, id, id, fun _ _ root _ _ => root,
    fun n h t => n + h + t, fun _ _ _ _ _ => 0⟩ 7 100 0
    ⟨1, 0, 0, 1, 100, 1000, [], [], [], 1, 0⟩ 1 1).toOption.get rfl

theorem blobs_submitted_in_order_three : ∃ chunks s',
    groupBlobs 2 threeBlobs twoAggregations = .ok chunks ∧ chunks.flatten <+: threeBlobs ∧
    submitChunks deployedRollup (chunks.take 1) = .ok s' ∧
    filterAlreadySubmitted s' threeBlobs = threeBlobs.drop (chunks.take 1).flatten.length ∧
    ∀ chunks' j, groupBlobs 2 (filterAlreadySubmitted s' threeBlobs) twoAggregations = .ok chunks' →
      ∃ s'', submitChunks s' (chunks'.take j) = .ok s'' := by
  have hready : Ready deployedRollup threeBlobs := by
    refine ⟨?_, ?_, ?_, ?_⟩ <;> decide +kernel
  have hfits : Fits threeBlobs twoAggregations.upperBoundaries 2 := .of_length (by decide)
  obtain ⟨chunks, hgroup, hbegin, -, hresume⟩ := (blobs_submitted_in_order threeBlobs_consecutive
    (by decide) (by decide) twoAggregations_rising twoAggregations_match le_rfl (by decide)
    (by decide) (by decide)).mpr hfits
  obtain ⟨s', hsubmit, hfilter, hagain⟩ := hresume deployedRollup 1 hready
  exact ⟨chunks, s', hgroup, hbegin, hsubmit, hfilter, hagain 2 twoAggregations⟩

/-- With the greatest chunk size the index at which the second chunk ends overflows. -/
theorem second_chunk_overflows : ∃ (blobs : List (BlobRecord Nat)) (aggregations : BlockIntervals)
    (target : Nat), Consecutive 0 blobs ∧ aggregations.Rising ∧
    aggregations.startingBlockNumber = 0 ∧
    (∀ e ∈ aggregations.upperBoundaries,
      (∃ b ∈ blobs, b.startBlockNumber ≤ e ∧ e ≤ b.endBlockNumber) →
        ∃ b ∈ blobs, b.endBlockNumber = e) ∧
    0 < target ∧ target < 2 ^ 31 ∧ groupBlobs target blobs aggregations = .error .subListRange := by
  refine ⟨threeBlobs, twoAggregations, 2 ^ 31 - 1, threeBlobs_consecutive, twoAggregations_rising,
    rfl, twoAggregations_match, by decide, by decide, ?_⟩
  decide +kernel

end

end StatusNetwork.Coordinator
