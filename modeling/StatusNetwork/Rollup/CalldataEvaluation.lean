import Mathlib.Algebra.BigOperators.Group.Finset.Basic
import Mathlib.Data.Int.ModEq
import StatusNetwork.Rollup.PublicInput

/-!
# The evaluation of calldata

`EvalStream` and `Shnarf.Compute` of the prover (`craft.go`), and `_calculateY`, `_computeShnarf`
and their use in `CalldataBlobAcceptor.sol`. Both sides run Horner's scheme from the last word on.
-/

namespace StatusNetwork.Rollup

open Memory (Byte read load store word)

variable (keccak : List Byte → BitVec 256)

-- The prover

inductive EvalStreamError
  | streamLength (received : Nat)
  | invalidStream
  deriving DecidableEq

/-- The loop, where `k` is 32 times what is left. Field elements are their values. -/
def evalLoop (stream : List Byte) (x : Nat) : (left y : Nat) → Except EvalStreamError Nat
  | 0, y => .ok y
  | left + 1, y => do
    let k := 32 * (left + 1)
    let y := if k < stream.length then y * x % BLS_CURVE_MODULUS else y
    let p := Digits.decode ((stream.drop (k - 32)).take 32)
    failIf (BLS_CURVE_MODULUS ≤ p) .invalidStream
    evalLoop stream x left ((y + p) % BLS_CURVE_MODULUS)

def evalStream (stream x_ : List Byte) : Except EvalStreamError Nat := do
  let x := Digits.decode x_ % BLS_CURVE_MODULUS
  failIf (stream.length % 32 ≠ 0) (.streamLength stream.length)
  evalLoop stream x (stream.length / 32) 0

structure Shnarf where
  oldShnarf : List Byte
  snarkHash : List Byte
  newStateRootHash : List Byte
  x : List Byte
  y : Nat

def Shnarf.compute (s : Shnarf) : List Byte :=
  word (keccak (s.oldShnarf ++ s.snarkHash ++ s.newStateRootHash ++ s.x ++ word s.y)).toNat

def evaluationChallenge (snarkHash keccakHash : List Byte) : List Byte :=
  word (keccak (snarkHash ++ keccakHash)).toNat

/-- The shnarf of a response for calldata. -/
def craftShnarf (compressedStream prevShnarf snarkHash newZkRootHash : List Byte) :
    Except EvalStreamError (List Byte) := do
  let keccakHash := word (keccak compressedStream).toNat
  let x := evaluationChallenge keccak snarkHash keccakHash
  let y ← evalStream compressedStream x
  .ok (Shnarf.compute keccak ⟨prevShnarf, snarkHash, newZkRootHash, x, y⟩)

-- The contract

inductive CalldataRevert
  | emptySubmissionData
  | bytesLengthNotMultipleOf32
  | firstByteIsNotZero
  deriving DecidableEq

def Calldata.calculateYLoop (calldata : Calldata) (offset dataEvaluationPoint : Nat) :
    (left y : Nat) → Except CalldataRevert Nat
  | 0, y => .ok y
  | left + 1, y => do
    let i := 0x20 * left
    let chunk := load calldata.byte (add offset i)
    failIf (chunk &&& 0xFF00000000000000000000000000000000000000000000000000000000000000 ≠ 0)
      .firstByteIsNotZero
    calldata.calculateYLoop offset dataEvaluationPoint left
      ((y * dataEvaluationPoint % BLS_CURVE_MODULUS + chunk) % BLS_CURVE_MODULUS)

def Calldata.calculateY (calldata : Calldata) (offset length dataEvaluationPoint : Nat) :
    Except CalldataRevert Nat := do
  failIf (length % 0x20 ≠ 0) .bytesLengthNotMultipleOf32
  calldata.calculateYLoop offset dataEvaluationPoint (length / 0x20) 0

namespace FreeMemory

variable (memory : FreeMemory)

def efficientKeccak (left right : Nat) : BitVec 256 :=
  keccak (read (store (store memory.byte 0x00 left) 0x20 right) 0x00 0x40)

def computeShnarf (parentShnarf snarkHash finalStateRootHash dataEvaluationPoint
    dataEvaluationClaim : Nat) : BitVec 256 :=
  let mPtr := memory.mPtr
  let m := store memory.byte mPtr parentShnarf
  let m := store m (add mPtr 0x20) snarkHash
  let m := store m (add mPtr 0x40) finalStateRootHash
  let m := store m (add mPtr 0x60) dataEvaluationPoint
  let m := store m (add mPtr 0x80) dataEvaluationClaim
  keccak (read m mPtr 0xa0)

/-- The shnarf that `_submitDataAsCalldata` computes. -/
def computedShnarf (calldata : Calldata)
    (offset length snarkHash finalStateRootHash parentShnarf : Nat) :
    Except CalldataRevert (BitVec 256) := do
  failIf (length = 0) .emptySubmissionData
  let currentDataHash := keccak (read calldata.byte offset length)
  let dataEvaluationPoint := (memory.efficientKeccak keccak snarkHash currentDataHash.toNat).toNat
  let y ← calldata.calculateY offset length dataEvaluationPoint
  .ok (memory.computeShnarf keccak parentShnarf snarkHash finalStateRootHash dataEvaluationPoint y)

end FreeMemory

-- What they compute

def wordAt (stream : List Byte) (i : Nat) : Nat := Digits.decode ((stream.drop (32 * i)).take 32)

/-- The words are the coefficients, the first one the constant. -/
def polynomial (stream : List Byte) (x : Nat) : Nat :=
  ∑ i ∈ Finset.range (stream.length / 32), wordAt stream i * x ^ i

/-- What is left of Horner's scheme when `n` words are left. -/
def horner (w : Nat → Nat) (x n y : Nat) : Nat := ∑ i ∈ Finset.range n, w i * x ^ i + y * x ^ n

theorem horner_step (h : y' ≡ y * x + w n [MOD q]) :
    horner w x n y' ≡ horner w x (n + 1) y [MOD q] := by
  refine ((h.mul_right (x ^ n)).add_left _).trans ?_
  rw [horner, Finset.sum_range_succ,
    show (y * x + w n) * x ^ n = w n * x ^ n + y * x ^ (n + 1) by ring, ← Nat.add_assoc]

theorem and_mask_eq_zero (h : w < 2 ^ 248) :
    w &&& 0xFF00000000000000000000000000000000000000000000000000000000000000 = 0 := by
  change w &&& 0xFF <<< 248 = 0
  refine Nat.eq_of_testBit_eq fun i => ?_
  rw [Nat.testBit_and, Nat.testBit_shiftLeft, Nat.zero_testBit]
  by_cases hi : 248 ≤ i
  · rw [Nat.testBit_lt_two_pow (h.trans_le (Nat.pow_le_pow_right (by decide) hi)), Bool.false_and]
  · simp [hi]

section
variable {stream : List Byte} (hzero : ∀ i < stream.length / 32, stream[32 * i]? = some 0)
include hzero

theorem wordAt_lt (hi : i < stream.length / 32) : wordAt stream i < 2 ^ 248 := by
  have hhead := hzero i hi
  rw [← List.head?_drop] at hhead
  obtain ⟨l, hl⟩ := List.head?_eq_some_iff.mp hhead
  have hlt := Digits.decode_lt (l.take 31)
  have hle : 256 ^ (l.take 31).length ≤ 256 ^ 31 :=
    Nat.pow_le_pow_right (by decide) (List.length_take_le ..)
  rw [wordAt, hl, List.take_succ_cons, ← List.singleton_append, Digits.decode_append,
    Digits.decode_singleton]
  omega

theorem evalLoop_eq (x : Nat) (hleft : 32 * left ≤ stream.length) (hy : y < BLS_CURVE_MODULUS)
    (hfirst : 32 * left = stream.length → y = 0) :
    evalLoop stream (x % BLS_CURVE_MODULUS) left y =
      .ok (horner (wordAt stream) x left y % BLS_CURVE_MODULUS) := by
  induction left generalizing y with
  | zero => simp [evalLoop, horner, Nat.mod_eq_of_lt hy]
  | succ left ih =>
    have hlt := wordAt_lt hzero (i := left) (by omega)
    have hfits : ¬ BLS_CURVE_MODULUS ≤ wordAt stream left := by
      unfold BLS_CURVE_MODULUS
      omega
    have hmul : (if 32 * (left + 1) < stream.length
        then y * (x % BLS_CURVE_MODULUS) % BLS_CURVE_MODULUS else y) ≡
        y * x [MOD BLS_CURVE_MODULUS] := by
      split
      · exact (Nat.mod_modEq _ _).trans ((Nat.mod_modEq x _).mul_left y)
      · rw [hfirst (by omega), Nat.zero_mul]
    rw [evalLoop, show 32 * (left + 1) - 32 = 32 * left by omega, ← wordAt, failIf_neg hfits,
      ih (by omega) (Nat.mod_lt _ (by decide)) (by omega)]
    exact congrArg _ (horner_step ((Nat.mod_modEq _ _).trans (hmul.add_right _)))

theorem evalStream_eq (hlen : stream.length % 32 = 0) (x : List Byte) :
    evalStream stream x = .ok (polynomial stream (Digits.decode x) % BLS_CURVE_MODULUS) := by
  rw [evalStream, failIf_neg (not_not.mpr hlen),
    evalLoop_eq hzero _ (by omega) (by decide) fun _ => rfl]
  simp [polynomial, horner]

variable {calldata : Calldata} (hin : offset + stream.length ≤ calldata.size)
  (hread : read calldata.byte offset stream.length = stream)
include hin hread

theorem calculateYLoop_eq (x : Nat) (hleft : 32 * left ≤ stream.length)
    (hy : y < BLS_CURVE_MODULUS) :
    calldata.calculateYLoop offset x left y =
      .ok (horner (wordAt stream) x left y % BLS_CURVE_MODULUS) := by
  induction left generalizing y with
  | zero => simp [Calldata.calculateYLoop, horner, Nat.mod_eq_of_lt hy]
  | succ left ih =>
    have hbounded := calldata.bounded
    have hload : load calldata.byte (add offset (0x20 * left)) = wordAt stream left := by
      obtain ⟨k, hk⟩ := Nat.exists_eq_add_of_le hleft
      have hslice := Memory.take_drop_read calldata.byte offset (32 * left) 32 k
      rw [← Nat.add_assoc, ← Nat.mul_succ, ← hk, hread] at hslice
      rw [add_of_lt (by omega), load, wordAt, hslice]
    have hlt := wordAt_lt hzero (i := left) (by omega)
    rw [Calldata.calculateYLoop, hload, failIf_neg (not_not.mpr (and_mask_eq_zero hlt)),
      ih (by omega) (Nat.mod_lt _ (by decide))]
    exact congrArg _ (horner_step ((Nat.mod_modEq _ _).trans ((Nat.mod_modEq _ _).add_right _)))

theorem calculateY_eq (hlen : stream.length % 32 = 0) (x : Nat) :
    calldata.calculateY offset stream.length x =
      .ok (polynomial stream x % BLS_CURVE_MODULUS) := by
  rw [Calldata.calculateY, failIf_neg (not_not.mpr hlen),
    calculateYLoop_eq hzero hin hread _ (by omega) (by decide)]
  simp [polynomial, horner]

end

variable (memory : FreeMemory)

theorem efficientKeccak_eq :
    memory.efficientKeccak keccak left right = keccak (word left ++ word right) := by
  refine congrArg keccak ((Memory.read_store_append _ 0 0x20 right).trans ?_)
  rw [Memory.read_store]

theorem computeShnarf_eq :
    word (memory.computeShnarf keccak parentShnarf snarkHash root x y).toNat =
      Shnarf.compute keccak ⟨word parentShnarf, word snarkHash, word root, word x, y⟩ := by
  simp (disch := decide) only [FreeMemory.computeShnarf, FreeMemory.add_mPtr]
  rw [Memory.read_store_append, Memory.read_store_append, Memory.read_store_append,
    Memory.read_store_append, Memory.read_store, Shnarf.compute]

/-- The evaluation of whole words with leading zero bytes, and the shnarf of their submission. -/
theorem calldata_evaluation_agrees {stream : List Byte} {calldata : Calldata}
    (hlen : stream.length % 32 = 0)
    (hzero : ∀ i < stream.length / 32, stream[32 * i]? = some 0)
    (hin : offset + stream.length ≤ calldata.size)
    (hread : read calldata.byte offset stream.length = stream) :
    (∀ x : List Byte,
      evalStream stream x = .ok (polynomial stream (Digits.decode x) % BLS_CURVE_MODULUS) ∧
      calldata.calculateY offset stream.length (Digits.decode x) =
        .ok (polynomial stream (Digits.decode x) % BLS_CURVE_MODULUS)) ∧
    ∀ snarkHash root parentShnarf, stream ≠ [] → ∃ shnarf,
      memory.computedShnarf keccak calldata offset stream.length snarkHash root parentShnarf =
        .ok shnarf ∧
      craftShnarf keccak stream (word parentShnarf) (word snarkHash) (word root) =
        .ok (word shnarf.toNat) := by
  refine ⟨fun x => ⟨evalStream_eq hzero hlen x, calculateY_eq hzero hin hread hlen _⟩,
    fun snarkHash root parentShnarf hne => ⟨?shnarf, ?contract, ?prover⟩⟩
  case contract =>
    rw [FreeMemory.computedShnarf, failIf_neg (mt List.length_eq_zero_iff.mp hne), ok_bind]
    dsimp only
    rw [hread, efficientKeccak_eq, calculateY_eq hzero hin hread hlen, ok_bind]
  case prover =>
    rw [craftShnarf, evalStream_eq hzero hlen, ok_bind, computeShnarf_eq, evaluationChallenge,
      decode_word]

/-- Two words, the last bytes of which are 5 and 3. -/
def twoWords : Calldata where
  size := 64
  byte i := if i = 31 then 5 else if i = 63 then 3 else 0
  zero i hi := by rw [if_neg (by omega), if_neg (by omega)]
  bounded := by decide

/-- The point is above the modulus, of which it leaves 2. -/
theorem calldata_evaluation_agrees_two_words :
    (evalStream (read twoWords.byte 0 64) (word (BLS_CURVE_MODULUS + 2)) = .ok 11 ∧
      twoWords.calculateY 0 64 (BLS_CURVE_MODULUS + 2) = .ok 11) ∧
    ∃ (memory : FreeMemory) (shnarf : BitVec 256),
      memory.computedShnarf (fun _ => 9) twoWords 0 64 1 2 3 = .ok shnarf ∧
      craftShnarf (fun _ => 9) (read twoWords.byte 0 64) (word 3) (word 1) (word 2) =
        .ok (word shnarf.toNat) := by
  obtain ⟨heval, hshnarf⟩ := @calldata_evaluation_agrees (fun _ => 9)
    ⟨fun _ => 0, by decide +kernel⟩ 0 (read twoWords.byte 0 64) twoWords (by decide)
    (by decide +kernel) (by decide) rfl
  have h := heval (word (BLS_CURVE_MODULUS + 2))
  have hpoint : Digits.decode (word (BLS_CURVE_MODULUS + 2)) = BLS_CURVE_MODULUS + 2 := by
    decide +kernel
  have hvalue : polynomial (read twoWords.byte 0 64) (BLS_CURVE_MODULUS + 2) %
      BLS_CURVE_MODULUS = 11 := by decide +kernel
  rw [hpoint, hvalue] at h
  exact ⟨h, _, hshnarf 1 2 3 (by decide +kernel)⟩

end StatusNetwork.Rollup
