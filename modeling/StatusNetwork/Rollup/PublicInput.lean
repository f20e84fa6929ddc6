import StatusNetwork.Base.Memory
import StatusNetwork.Messaging.L1MessageServiceLaws
import StatusNetwork.Rollup.LineaRollup

/-!
# The public input of a finalization

The assembly of `LineaRollupBase._computePublicInput` and of `MessageHashing.sol` over calldata and
memory, `Aggregation.Sum` of the prover (`aggregation.go`), and what they hash.
-/

namespace StatusNetwork.Rollup

open Memory (Byte read load store copy word)
open Messaging (Bytes Message)
open Security (Address)

variable (keccak : List Byte → BitVec 256)

def add (a b : Nat) : Nat := (a + b) % 2 ^ 256

def mul (a b : Nat) : Nat := a * b % 2 ^ 256

/-- A word as a number of two's complement. -/
def signed (w : Nat) : Int := if w < 2 ^ 255 then w else w - 2 ^ 256

/-- Reading beyond the end gives zeros. -/
structure Calldata where
  size : Nat
  byte : Nat → Byte
  zero : ∀ i, size ≤ i → byte i = 0
  bounded : size < 2 ^ 64

/-- The memory of the contract; the free memory pointer is at `0x40`. -/
structure FreeMemory where
  byte : Nat → Byte
  bounded : load byte 0x40 < 2 ^ 64

namespace Calldata

variable (c : Calldata)

/-- The compiler's access to the array whose offset is at `p`, a field of the struct at `base`:
where its elements begin, and how many there are. -/
def accessTail (base p stride : Nat) : Option (Nat × Nat) :=
  let offset := load c.byte p
  let location := add base offset
  let length := load c.byte location
  if signed offset < (c.size : Int) - base - 0x1f ∧ length < 2 ^ 64 ∧
      signed (add location 0x20) ≤ (c.size : Int) - length * stride then
    some (add location 0x20, length)
  else none

def slice (offset length : Nat) : Bytes := (read c.byte offset length).map UInt8.ofFin

def finalizationData (p : Nat) : Option (FinalizationDataV3 Nat) := do
  if c.size < p + 0x200 then none
  let roots ← c.accessTail p (p + 0x1c0) 0x20
  let offsets ← c.accessTail p (p + 0x1e0) 1
  some {
    parentStateRootHash := load c.byte p
    endBlockNumber := load c.byte (p + 0x20)
    shnarfData := {
      parentShnarf := load c.byte (p + 0x40)
      snarkHash := load c.byte (p + 0x60)
      finalStateRootHash := load c.byte (p + 0x80)
      dataEvaluationPoint := load c.byte (p + 0xa0)
      dataEvaluationClaim := load c.byte (p + 0xc0) }
    lastFinalizedTimestamp := load c.byte (p + 0xe0)
    finalTimestamp := load c.byte (p + 0x100)
    lastFinalizedL1RollingHash := load c.byte (p + 0x120)
    l1RollingHash := load c.byte (p + 0x140)
    lastFinalizedL1RollingHashMessageNumber := load c.byte (p + 0x160)
    l1RollingHashMessageNumber := load c.byte (p + 0x180)
    l2MerkleTreesDepth := load c.byte (p + 0x1a0)
    l2MerkleRoots := (List.range roots.2).map fun i => load c.byte (roots.1 + 0x20 * i)
    l2MessagingBlocksOffsets := c.slice offsets.1 offsets.2 }

end Calldata

namespace FreeMemory

variable (memory : FreeMemory) (calldata : Calldata)

def mPtr : Nat := load memory.byte 0x40

def computePublicInput (finalizationData lastFinalizedShnarf finalShnarf lastFinalizedBlockNumber
    verifierChainConfiguration : Nat) : Nat :=
  let mPtr := memory.mPtr
  let m := store memory.byte mPtr lastFinalizedShnarf
  let m := store m (add mPtr 0x20) finalShnarf
  let m := copy m (add mPtr 0x40) calldata.byte (add finalizationData 0xe0) 0x40
  let m := store m (add mPtr 0x80) lastFinalizedBlockNumber
  let m := copy m (add mPtr 0xa0) calldata.byte (add finalizationData 0x20) 0x20
  let m := copy m (add mPtr 0xc0) calldata.byte (add finalizationData 0x120) 0xa0
  let mPtrMerkleRoot := add mPtr 0x180
  let merkleRootsLengthLocation :=
    add finalizationData (load calldata.byte (add finalizationData 0x1c0))
  let merkleRootsLen := load calldata.byte merkleRootsLengthLocation
  let m := copy m mPtrMerkleRoot calldata.byte (add merkleRootsLengthLocation 0x20)
    (mul merkleRootsLen 0x20)
  let l2MerkleRootsHash := keccak (read m mPtrMerkleRoot (mul merkleRootsLen 0x20))
  let m := store m (add mPtr 0x160) l2MerkleRootsHash.toNat
  let m := store m (add mPtr 0x180) verifierChainConfiguration
  (keccak (read m mPtr 0x1a0)).toNat % MODULO_R

/-- `_hashMessage`; `offset` and `length` are those of the calldata of the message. -/
def hashMessage (sender destination : Address)
    (fee valueSent messageNumber offset length : Nat) : BitVec 256 :=
  let mPtr := memory.mPtr
  let m := store memory.byte mPtr sender.toNat
  let m := store m (add mPtr 0x20) destination.toNat
  let m := store m (add mPtr 0x40) fee
  let m := store m (add mPtr 0x60) valueSent
  let m := store m (add mPtr 0x80) messageNumber
  let m := store m (add mPtr 0xa0) 0xc0
  let m := store m (add mPtr 0xc0) length
  let rem := length % 0x20
  let extra := if rem ≠ 0 then 0x20 - rem else 0
  let m := copy m (add mPtr 0xe0) calldata.byte offset length
  keccak (read m mPtr (add 0xe0 (add length extra)))

def hashMessageWithEmptyCalldata (sender destination : Address)
    (fee valueSent messageNumber : Nat) : BitVec 256 :=
  let mPtr := memory.mPtr
  let m := store memory.byte mPtr sender.toNat
  let m := store m (add mPtr 0x20) destination.toNat
  let m := store m (add mPtr 0x40) fee
  let m := store m (add mPtr 0x60) valueSent
  let m := store m (add mPtr 0x80) messageNumber
  let m := store m (add mPtr 0xa0) 0xc0
  let m := store m (add mPtr 0xc0) 0x00
  keccak (read m mPtr 0xe0)

end FreeMemory

-- The prover

/-- Hashes are the bytes that their hexadecimal texts stand for. -/
structure Aggregation where
  finalShnarf : List Byte
  parentAggregationFinalShnarf : List Byte
  parentAggregationLastBlockTimestamp : UInt64
  finalTimestamp : UInt64
  lastFinalizedBlockNumber : UInt64
  finalBlockNumber : UInt64
  lastFinalizedL1RollingHash : List Byte
  l1RollingHash : List Byte
  lastFinalizedL1RollingHashMessageNumber : UInt64
  l1RollingHashMessageNumber : UInt64
  l2MsgRootHashes : List (List Byte)
  l2MsgMerkleTreeDepth : Int64
  chainID : UInt64
  baseFee : UInt64
  coinBase : List Byte
  l2MessageServiceAddr : List Byte

def fmtInt32Bytes (v : Int64) : List Byte := word v.toInt.natAbs

def fmtUint32Bytes (v : UInt64) : List Byte := word v.toNat

def bn254Modulus : Nat := 0x30644e72e131a029b85045b68181585d2833e84879b9709143e1f593f0000001

def Aggregation.sum (computeChainConfigurationHash :
    UInt64 → UInt64 → List Byte → List Byte → List Byte) (p : Aggregation) : List Byte :=
  let l2Msgs := word (keccak p.l2MsgRootHashes.flatten).toNat
  let chainConfigHash :=
    computeChainConfigurationHash p.chainID p.baseFee p.coinBase p.l2MessageServiceAddr
  let sum := keccak (p.parentAggregationFinalShnarf ++ p.finalShnarf ++
    fmtUint32Bytes p.parentAggregationLastBlockTimestamp ++ fmtUint32Bytes p.finalTimestamp ++
    fmtUint32Bytes p.lastFinalizedBlockNumber ++ fmtUint32Bytes p.finalBlockNumber ++
    p.lastFinalizedL1RollingHash ++ p.l1RollingHash ++
    fmtUint32Bytes p.lastFinalizedL1RollingHashMessageNumber ++
    fmtUint32Bytes p.l1RollingHashMessageNumber ++ fmtInt32Bytes p.l2MsgMerkleTreeDepth ++
    l2Msgs ++ chainConfigHash)
  word (Digits.decode (word sum.toNat) % bn254Modulus)

-- What is hashed

def abiEncode (words : List Nat) : List Byte := words.flatMap word

def publicInputHash (data : FinalizationDataV3 Nat) (lastFinalizedShnarf finalShnarf
    lastFinalizedBlockNumber chainConfiguration : Nat) : Nat :=
  (keccak (abiEncode [
    lastFinalizedShnarf,
    finalShnarf,
    data.lastFinalizedTimestamp,
    data.finalTimestamp,
    lastFinalizedBlockNumber,
    data.endBlockNumber,
    data.lastFinalizedL1RollingHash,
    data.l1RollingHash,
    data.lastFinalizedL1RollingHashMessageNumber,
    data.l1RollingHashMessageNumber,
    data.l2MerkleTreesDepth,
    (keccak (abiEncode data.l2MerkleRoots)).toNat,
    chainConfiguration])).toNat

/-- The head with the offset of the data, then the data with its length, in whole words. -/
def encodeMessage (m : Message) : List Byte :=
  abiEncode [m.sender.toNat, m.destination.toNat, m.fee, m.value, m.messageNumber, 0xc0,
      m.data.length] ++ m.data.map UInt8.toFin ++ List.replicate
        ((0x20 - m.data.length % 0x20) % 0x20) 0

/-- The prover aggregates the values of the finalization. -/
structure Aggregation.Describes (p : Aggregation) (chainConfigHash : List Byte)
    (data : FinalizationDataV3 Nat) (lastFinalizedShnarf finalShnarf lastFinalizedBlockNumber
    chainConfiguration : Nat) : Prop where
  parentShnarf : p.parentAggregationFinalShnarf = word lastFinalizedShnarf
  shnarf : p.finalShnarf = word finalShnarf
  lastTimestamp : p.parentAggregationLastBlockTimestamp.toNat = data.lastFinalizedTimestamp
  timestamp : p.finalTimestamp.toNat = data.finalTimestamp
  lastBlockNumber : p.lastFinalizedBlockNumber.toNat = lastFinalizedBlockNumber
  blockNumber : p.finalBlockNumber.toNat = data.endBlockNumber
  lastRollingHash : p.lastFinalizedL1RollingHash = word data.lastFinalizedL1RollingHash
  rollingHash : p.l1RollingHash = word data.l1RollingHash
  lastMessageNumber : p.lastFinalizedL1RollingHashMessageNumber.toNat =
    data.lastFinalizedL1RollingHashMessageNumber
  messageNumber : p.l1RollingHashMessageNumber.toNat = data.l1RollingHashMessageNumber
  depth : p.l2MsgMerkleTreeDepth.toInt = data.l2MerkleTreesDepth
  roots : p.l2MsgRootHashes = data.l2MerkleRoots.map word
  configuration : chainConfigHash = word chainConfiguration

variable {keccak} {memory : FreeMemory} {calldata : Calldata}

theorem add_of_lt (h : a + b < 2 ^ 256) : add a b = a + b := Nat.mod_eq_of_lt h

theorem FreeMemory.add_mPtr (memory : FreeMemory) (h : k < 2 ^ 64) :
    add memory.mPtr k = memory.mPtr + k := by
  have := memory.bounded
  exact add_of_lt (by unfold mPtr; omega)

theorem Calldata.accessTail_ok (h : calldata.accessTail base p stride = some (start, length)) :
    start = add (add base (load calldata.byte p)) 0x20 ∧
      length = load calldata.byte (add base (load calldata.byte p)) ∧ length < 2 ^ 64 := by
  simp only [accessTail, Option.ite_none_right_eq_some] at h
  obtain ⟨⟨-, hlength, -⟩, rfl, ⟨⟩⟩ := h
  exact ⟨rfl, rfl, hlength⟩

theorem read_two (m : Nat → Byte) (p : Nat) :
    read m p 0x40 = word (load m p) ++ word (load m (p + 0x20)) := by
  simpa [List.range_succ] using Memory.read_words m p 2

theorem read_five (m : Nat → Byte) (p : Nat) :
    read m p 0xa0 = word (load m p) ++ word (load m (p + 0x20)) ++ word (load m (p + 0x40)) ++
      word (load m (p + 0x60)) ++ word (load m (p + 0x80)) := by
  simpa [List.range_succ] using Memory.read_words m p 5

theorem computePublicInput_eq (h : calldata.finalizationData p = some data) :
    memory.computePublicInput keccak calldata p lastFinalizedShnarf finalShnarf
        lastFinalizedBlockNumber chainConfiguration =
      publicInputHash keccak data lastFinalizedShnarf finalShnarf lastFinalizedBlockNumber
        chainConfiguration % MODULO_R := by
  simp only [Calldata.finalizationData, Option.bind_eq_bind, Option.bind_eq_some_iff,
    Option.bind_none, Option.ite_none_left_eq_some] at h
  obtain ⟨hstruct, ⟨start, length⟩, hroots, _, -, ⟨⟩⟩ := h
  obtain ⟨hstart, hlength, hbound⟩ := Calldata.accessTail_ok hroots
  have hcalldata := calldata.bounded
  have hp : ∀ k, k ≤ 0x200 → add p k = p + k := fun k hk => add_of_lt (by omega)
  have hmul : mul length 0x20 = 0x20 * length := by
    rw [mul, Nat.mod_eq_of_lt (by omega), Nat.mul_comm]
  simp (disch := decide) only [FreeMemory.computePublicInput, FreeMemory.add_mPtr, hp, ← hstart,
    ← hlength, hmul]
  rw [Memory.read_copy, Memory.read_words, Memory.read_store_append, Memory.read_store_append,
    Memory.read_copy_of_disjoint (by omega), Memory.read_copy_append, Memory.read_copy_append,
    Memory.read_store_append, Memory.read_copy_append, Memory.read_store_append,
    Memory.read_store, read_two, read_five, ← Memory.word_load]
  simp only [publicInputHash, abiEncode, List.flatMap_cons, List.flatMap_nil, List.append_assoc,
    List.append_nil, Nat.add_assoc, Nat.reduceAdd]

theorem decode_word (x : BitVec 256) : Digits.decode (word x.toNat) = x.toNat :=
  Digits.decode_encode_of_lt (by simpa using x.isLt)

theorem aggregation_sum_eq {p : Aggregation} (h : p.Describes
      (chainConfigurationHash p.chainID p.baseFee p.coinBase p.l2MessageServiceAddr) data
      lastFinalizedShnarf finalShnarf lastFinalizedBlockNumber chainConfiguration) :
    p.sum keccak chainConfigurationHash = word (publicInputHash keccak data lastFinalizedShnarf
      finalShnarf lastFinalizedBlockNumber chainConfiguration % MODULO_R) := by
  have hmodulus : bn254Modulus = MODULO_R := by decide
  simp only [Aggregation.sum, fmtInt32Bytes, fmtUint32Bytes, h.parentShnarf, h.shnarf,
    h.lastTimestamp,
    h.timestamp, h.lastBlockNumber, h.blockNumber, h.lastRollingHash, h.rollingHash,
    h.lastMessageNumber, h.messageNumber, h.depth, h.roots, h.configuration, Int.natAbs_natCast,
    decode_word, hmodulus, publicInputHash, abiEncode, List.flatMap_cons, List.flatMap_nil,
    List.append_nil, List.append_assoc, ← List.flatMap_def]

theorem read_seven (m : Nat → Byte) (p w₀ w₁ w₂ w₃ w₄ w₅ w₆ : Nat) :
    read (store (store (store (store (store (store (store m p w₀) (p + 0x20) w₁) (p + 0x40) w₂)
      (p + 0x60) w₃) (p + 0x80) w₄) (p + 0xa0) w₅) (p + 0xc0) w₆) p 0xe0 =
      abiEncode [w₀, w₁, w₂, w₃, w₄, w₅, w₆] := by
  rw [Memory.read_store_append, Memory.read_store_append, Memory.read_store_append,
    Memory.read_store_append, Memory.read_store_append, Memory.read_store_append]
  simp [abiEncode]

theorem hashMessage_eq (hzero : ∀ a, memory.mPtr ≤ a → memory.byte a = 0)
    (hlength : length < 2 ^ 64) :
    memory.hashMessage keccak calldata sender destination fee value messageNumber offset length =
      keccak (encodeMessage ⟨sender, destination, fee, value, messageNumber,
        calldata.slice offset length⟩) := by
  set extra := (0x20 - length % 0x20) % 0x20
  have hextra : (if length % 0x20 ≠ 0 then 0x20 - length % 0x20 else 0) = extra := by
    split <;> omega
  have hadd : add 0xe0 (add length extra) = 0xe0 + length + extra := by
    rw [add_of_lt (a := length) (by omega), add_of_lt (by omega), Nat.add_assoc]
  simp (disch := decide) only [FreeMemory.hashMessage, FreeMemory.add_mPtr, hextra, hadd]
  -- What pads the last word was there before.
  rw [Memory.read_add _ _ (0xe0 + length), Memory.read_copy_append, read_seven,
    Memory.read_copy_of_disjoint (by omega)]
  simp (disch := omega) only [Memory.read_store_of_disjoint]
  rw [Memory.read_zero fun i _ => hzero _ (by omega)]
  have hbyte : UInt8.toFin ∘ UInt8.ofFin = id := rfl
  simp [encodeMessage, Calldata.slice, hbyte, extra]

theorem hashMessageWithEmptyCalldata_eq :
    memory.hashMessageWithEmptyCalldata keccak sender destination fee value messageNumber =
      keccak (encodeMessage ⟨sender, destination, fee, value, messageNumber, []⟩) := by
  simp (disch := decide) only [FreeMemory.hashMessageWithEmptyCalldata, FreeMemory.add_mPtr]
  simp [read_seven, encodeMessage]

-- The finalization

theorem addL2MerkleRoots_stores [DecidableEq D] {s s' : Messaging.L1MessageManager D}
    (h : s.addL2MerkleRoots roots depth = .ok s') :
    ∀ root ∈ roots, s'.l2MerkleRootsDepths root = depth := by
  induction roots generalizing s with
  | nil => simp
  | cons root roots ih =>
    simp only [Messaging.L1MessageManager.addL2MerkleRoots, List.foldlM_cons, bind_eq_ok,
      failIf_eq_ok, Except.ok.injEq] at h
    obtain ⟨_, ⟨_, -, rfl⟩, h⟩ := h
    have hrest := Messaging.addL2MerkleRoots_ok h
    simp only [List.mem_cons, forall_eq_or_imp]
    refine ⟨?_, ih h⟩
    obtain ⟨depths, rfl, hdepths⟩ := hrest
    rcases hdepths root with hroot | ⟨-, hroot⟩
    · simpa using hroot
    · exact hroot

/-- What the contract checks and stores is what the verifier gets in the public input. -/
structure Bound (H : Hashing Nat) (f : FinalizationEnv Nat) (verifier : Address) (proof : Bytes)
    (data : FinalizationDataV3 Nat) (publicInput : Nat → Nat → Nat → Nat → Nat)
    (s s' : LineaRollup Nat) : Prop where
  verified : f.verify verifier proof (publicInput s.currentFinalizedShnarf
    s'.currentFinalizedShnarf s.currentL2BlockNumber f.chainConfiguration) = .returned true
  lastState : s.currentFinalizedState = H.computeLastFinalizedState
    data.lastFinalizedL1RollingHashMessageNumber data.lastFinalizedL1RollingHash
    data.lastFinalizedTimestamp
  state : s'.currentFinalizedState = H.computeLastFinalizedState data.l1RollingHashMessageNumber
    data.l1RollingHash data.finalTimestamp
  shnarf : s'.currentFinalizedShnarf = LineaRollup.finalShnarf H data
  blockNumber : s'.currentL2BlockNumber = data.endBlockNumber
  roots : ∀ root ∈ data.l2MerkleRoots, s'.l2MerkleRootsDepths root = data.l2MerkleTreesDepth

theorem verifyProof_ok (h : LineaRollup.verifyProof f publicInput verifier proof = .ok ()) :
    f.verify verifier proof publicInput = .returned true := by
  unfold LineaRollup.verifyProof at h
  split at h
  · exact nomatch h
  · simp_all [failIf_eq_ok]

theorem finalizeBlocks_bound
    (hH : ∀ a b n k, H.publicInputHash data a b n k % MODULO_R = publicInput a b n k)
    (h : s.finalizeBlocks H e f proof proofType data = .ok s') :
    Bound H f (s.verifiers proofType) proof data publicInput s s' := by
  simp only [LineaRollup.finalizeBlocks, LineaRollup.applyFinalization,
    LineaRollup.computePublicInput, bind_eq_ok, failIf_eq_ok, Except.ok.injEq,
    mapError_eq_ok] at h
  obtain ⟨-, -, -, -, -, -, -, -, -, -, _, ⟨_, -, _, hlast, -, -, -, -, -, -, manager, hroots, -, -,
    rfl⟩, _, hverify, rfl⟩ := h
  exact {
    verified := by simpa [hH] using verifyProof_ok hverify
    lastState := (not_not.mp hlast).symm
    state := rfl
    shnarf := rfl
    blockNumber := rfl
    roots := addL2MerkleRoots_stores hroots }

theorem public_input_binds_the_finalization (keccak : List Byte → BitVec 256)
    (memory : FreeMemory) (calldata : Calldata) :
    (∀ p data, calldata.finalizationData p = some data →
      (∀ lastFinalizedShnarf finalShnarf lastFinalizedBlockNumber chainConfiguration,
        memory.computePublicInput keccak calldata p lastFinalizedShnarf finalShnarf
            lastFinalizedBlockNumber chainConfiguration =
          publicInputHash keccak data lastFinalizedShnarf finalShnarf lastFinalizedBlockNumber
            chainConfiguration % MODULO_R ∧
        ∀ chainConfigurationHash (a : Aggregation), a.Describes
            (chainConfigurationHash a.chainID a.baseFee a.coinBase a.l2MessageServiceAddr) data
            lastFinalizedShnarf finalShnarf lastFinalizedBlockNumber chainConfiguration →
          a.sum keccak chainConfigurationHash =
            word (memory.computePublicInput keccak calldata p lastFinalizedShnarf finalShnarf
              lastFinalizedBlockNumber chainConfiguration)) ∧
      ∀ (H : Hashing Nat) (s s' : LineaRollup Nat) e f proof proofType,
        H.publicInputHash = publicInputHash keccak →
        s.finalizeBlocks H e f proof proofType data = .ok s' →
        Bound H f (s.verifiers proofType) proof data
          (memory.computePublicInput keccak calldata p) s s') ∧
    ∀ sender destination fee value messageNumber,
      (∀ offset length, (∀ a, memory.mPtr ≤ a → memory.byte a = 0) → length < 2 ^ 64 →
        memory.hashMessage keccak calldata sender destination fee value messageNumber offset
            length =
          keccak (encodeMessage ⟨sender, destination, fee, value, messageNumber,
            calldata.slice offset length⟩)) ∧
      memory.hashMessageWithEmptyCalldata keccak sender destination fee value messageNumber =
        keccak (encodeMessage ⟨sender, destination, fee, value, messageNumber, []⟩) := by
  refine ⟨fun p data hdata => ⟨fun a b n k => ⟨computePublicInput_eq hdata, fun hash p' h => ?_⟩,
    fun H s s' e f proof proofType hH h => ?_⟩, fun _ _ _ _ _ =>
    ⟨fun _ _ hzero hlength => hashMessage_eq hzero hlength, hashMessageWithEmptyCalldata_eq⟩⟩
  · rw [aggregation_sum_eq h, computePublicInput_eq hdata]
  · exact finalizeBlocks_bound (fun _ _ _ _ => by rw [hH, computePublicInput_eq hdata]) h

def sampleKeccak (l : List Byte) : BitVec 256 := BitVec.ofNat 256 (Digits.decode l)

def sampleMemory : FreeMemory where
  byte := store (fun _ => 0) 0x40 0x80
  bounded := by decide +kernel

def sampleCalldata : Calldata where
  size := 0x260
  byte i := Fin.ofNat 256 (([1, 1, 0, 0, 1, 0, 0, 0, 1, 0, 0, 0, 0, 1, 0x200, 0x240, 1, 77].getD
    (i / 32) 0) / 256 ^ (31 - i % 32))
  zero i hi := by
    rw [List.getD_eq_getElem?_getD, List.getElem?_eq_none (by simp; omega)]
    simp
  bounded := by decide

def sampleHashing : Hashing Nat where
  efficientKeccak a b := a + b
  hashMessage m := (sampleKeccak (encodeMessage m)).toNat
  uint256 w := w
  bytes32 w := w
  computeShnarf a b c d e := a + b + c + d + e
  computeLastFinalizedState n h t := n + h + t
  publicInputHash := publicInputHash sampleKeccak

def sampleRollup : LineaRollup Nat :=
  (LineaRollup.initialized sampleHashing 7 100 0
    ⟨1, 0, 0, 1, 100, 1000, [(OPERATOR_ROLE, 2)], [], [], 1, 0⟩ 1 1).toOption.get rfl

def sampleEnv : FinalizationEnv Nat := ⟨fun _ => 0, 5, fun _ _ _ => .returned true⟩

def sampleAggregation : Aggregation where
  finalShnarf := word 1
  parentAggregationFinalShnarf := word 1
  parentAggregationLastBlockTimestamp := 0
  finalTimestamp := 1
  lastFinalizedBlockNumber := 0
  finalBlockNumber := 1
  lastFinalizedL1RollingHash := word 0
  l1RollingHash := word 0
  lastFinalizedL1RollingHashMessageNumber := 0
  l1RollingHashMessageNumber := 0
  l2MsgRootHashes := [word 77]
  l2MsgMerkleTreeDepth := 1
  chainID := 0
  baseFee := 0
  coinBase := []
  l2MessageServiceAddr := []

deriving instance DecidableEq for ShnarfData, FinalizationDataV3

def sampleData : FinalizationDataV3 Nat :=
  ⟨1, 1, ⟨0, 0, 1, 0, 0⟩, 0, 1, 0, 0, 0, 0, 1, [77], []⟩

theorem sampleCalldata_data : sampleCalldata.finalizationData 0 = some sampleData := by
  decide +kernel

theorem public_input_binds_the_finalization_one_root :
    ∃ s', sampleCalldata.finalizationData 0 = some sampleData ∧
      sampleAggregation.sum sampleKeccak (fun _ _ _ _ => word 5) =
        word (sampleMemory.computePublicInput sampleKeccak sampleCalldata 0 1 1 0 5) ∧
      Bound sampleHashing sampleEnv (sampleRollup.verifiers 0) [0] sampleData
        (sampleMemory.computePublicInput sampleKeccak sampleCalldata 0) sampleRollup s' ∧
      sampleMemory.hashMessage sampleKeccak sampleCalldata 1 2 3 4 5 0 3 =
        sampleKeccak (encodeMessage ⟨1, 2, 3, 4, 5, sampleCalldata.slice 0 3⟩) := by
  obtain ⟨hinput, hmessage⟩ :=
    public_input_binds_the_finalization sampleKeccak sampleMemory sampleCalldata
  obtain ⟨s', hs', -⟩ := map_eq_ok.mp (show (sampleRollup.finalizeBlocks sampleHashing
    ⟨2, 0, 2, by decide⟩ sampleEnv [0] 0 sampleData).map (·.currentL2BlockNumber) = .ok 1 by
      decide +kernel)
  obtain ⟨hvalue, hbound⟩ := hinput 0 sampleData sampleCalldata_data
  have hdescribes : sampleAggregation.Describes (word 5) sampleData 1 1 0 5 := by
    constructor <;> decide +kernel
  have hpointer : sampleMemory.mPtr = 0x80 := by decide +kernel
  refine ⟨s', sampleCalldata_data, (hvalue 1 1 0 5).2 _ sampleAggregation hdescribes,
    hbound _ _ _ _ _ _ _ rfl hs', (hmessage 1 2 3 4 5).1 0 3 (fun a ha => ?_) (by decide)⟩
  have hafter : ¬ a - 0x40 < 32 := by omega
  simp [sampleMemory, store, Memory.write, hafter]

end StatusNetwork.Rollup
