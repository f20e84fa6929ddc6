import Mathlib.Data.List.Chain
import StatusNetwork.Coordinator.Domain

/-!
# The chain of shnarfs

Models `RollingBlobShnarfCalculator` and the queue of `BlobCompressionProofCoordinator`. The
calculator remembers a blob as the parent of the next one as soon as it has the shnarf. When the
proof request fails after that, the blob is put back, and no further attempt gets past its parent.
-/

namespace StatusNetwork.Coordinator.ShnarfChain

/-- The blocks of a blob are those from its first conflation to its last one. -/
structure Blob (Data : Type) extends BlockInterval where
  upperBoundaries : List Nat
  compressedData : Data
  deriving DecidableEq

structure BlobShnarfMetaData (Hash : Type) where
  startBlockNumber : Nat
  endBlockNumber : Nat
  blobHash : Hash
  blobShnarf : Hash
  deriving DecidableEq

structure ShnarfResult (Hash : Type) where
  dataHash : Hash
  expectedShnarf : Hash
  deriving DecidableEq

structure BlobCompressionProofRequest (Data Hash : Type) where
  blob : Blob Data
  parentDataHash : Hash
  prevShnarf : Hash
  expectedShnarfResult : ShnarfResult Hash
  deriving DecidableEq

def BlobCompressionProofRequest.metaData (r : BlobCompressionProofRequest Data Hash) :
    BlobShnarfMetaData Hash :=
  ⟨r.blob.startBlockNumber, r.blob.endBlockNumber, r.expectedShnarfResult.dataHash,
    r.expectedShnarfResult.expectedShnarf⟩

/-- What the state provider, the shnarf library and the database answer when they do not fail. -/
structure Services (Data Hash : Type) where
  genesisShnarf : Hash
  zeroHash : Hash
  parentStateRootHash : Blob Data → Hash
  finalStateRootHash : Blob Data → Hash
  calculateShnarf : (compressedData : Data) →
    (parentStateRootHash finalStateRootHash prevShnarf : Hash) →
    (startingBlockNumber : Nat) → (upperBoundaries : List Nat) → ShnarfResult Hash
  findBlobByEndBlockNumber : Nat → Option (BlobShnarfMetaData Hash)

/-- A request may be created and still fail, when its handler throws. -/
inductive RequestOutcome
  | created
  | handlerFailed
  | failed
  deriving DecidableEq

/-- What succeeds in one attempt to send a blob. -/
structure Attempt where
  zkState : Bool
  parentLookup : Bool
  shnarf : Bool
  proofRequest : RequestOutcome
  deriving DecidableEq

inductive Failure
  | zkState
  | parentMismatch
  | parentLookup
  | shnarf
  | proofRequest
  deriving DecidableEq

structure State (Data Hash : Type) where
  blobsToHandle : List (Blob Data)
  parentBlobShnarfMetaDataReference : Option (BlobShnarfMetaData Hash)
  requests : List (BlobCompressionProofRequest Data Hash)
  failures : List Failure
  deriving DecidableEq

inductive Action (Data : Type)
  | handleBlob (blob : Blob Data)
  | handleBlobFromTheQueue (a : Attempt)
  deriving DecidableEq

section
variable {Data Hash : Type} (services : Services Data Hash)

def Services.shnarf (blob : Blob Data) (prevShnarf : Hash) : ShnarfResult Hash :=
  services.calculateShnarf blob.compressedData (services.parentStateRootHash blob)
    (services.finalStateRootHash blob) prevShnarf blob.startBlockNumber blob.upperBoundaries

def getParentBlobData (parentReference : Option (BlobShnarfMetaData Hash)) (parentLookup : Bool)
    (blob : Blob Data) : Except Failure (BlobShnarfMetaData Hash) :=
  let parentBlobEndBlockNumber := blockBefore blob.startBlockNumber
  if parentBlobEndBlockNumber = 0 then .ok ⟨0, 0, services.zeroHash, services.genesisShnarf⟩
  else
    match parentReference with
    | some parentBlobData =>
      if parentBlobData.endBlockNumber ≠ parentBlobEndBlockNumber then .error .parentMismatch
      else .ok parentBlobData
    | none =>
      match services.findBlobByEndBlockNumber parentBlobEndBlockNumber, parentLookup with
      | some parentBlobData, true => .ok parentBlobData
      | _, _ => .error .parentLookup

namespace State

variable (s : State Data Hash)

def fail (failure : Failure) : State Data Hash := { s with failures := s.failures ++ [failure] }

/-- Sends the first blob of the queue, which stays there unless everything succeeds. -/
def sendBlobToCompressionProver (blob : Blob Data) (rest : List (Blob Data)) (a : Attempt) :
    State Data Hash :=
  if a.zkState = false then s.fail .zkState
  else
    match getParentBlobData services s.parentBlobShnarfMetaDataReference a.parentLookup blob with
    | .error e => s.fail e
    | .ok parentBlobData =>
      if a.shnarf = false then s.fail .shnarf
      else
        let shnarfResult := services.shnarf blob parentBlobData.blobShnarf
        let request : BlobCompressionProofRequest Data Hash :=
          ⟨blob, parentBlobData.blobHash, parentBlobData.blobShnarf, shnarfResult⟩
        let s := { s with parentBlobShnarfMetaDataReference := some request.metaData }
        let requests := s.requests ++ [request]
        match a.proofRequest with
        | .created => { s with requests, blobsToHandle := rest }
        | .handlerFailed => { s with requests }.fail .proofRequest
        | .failed => s.fail .proofRequest

def step : Action Data → State Data Hash
  | .handleBlob blob => { s with blobsToHandle := s.blobsToHandle ++ [blob] }
  | .handleBlobFromTheQueue a =>
    match s.blobsToHandle with
    | [] => s
    | blob :: rest => s.sendBlobToCompressionProver services blob rest a

end State

def run (actions : List (Action Data)) : State Data Hash :=
  actions.foldl (fun s a => s.step services a) ⟨[], none, [], []⟩

def arrived (actions : List (Action Data)) : List (Blob Data) :=
  actions.filterMap fun
    | .handleBlob blob => some blob
    | .handleBlobFromTheQueue _ => none

/-- Blobs of blocks that follow each other, without the genesis block. -/
structure Consecutive (blobs : List (Blob Data)) : Prop where
  blocks : ∀ b ∈ blobs, 0 < b.startBlockNumber ∧ b.startBlockNumber ≤ b.endBlockNumber ∧
    b.endBlockNumber < 2 ^ 64
  next : blobs.IsChain fun a b => b.startBlockNumber = a.endBlockNumber + 1

-- The requests follow each other

/-- The first parent comes from the genesis or the database, every other one is the blob before. -/
structure Linked (blobs : List (Blob Data)) (s : State Data Hash) : Prop where
  order : s.requests.map (·.blob) ++ s.blobsToHandle = blobs
  first : ∀ r ∈ s.requests.head?, ∃ parent, getParentBlobData services none true r.blob =
    .ok parent ∧ r.prevShnarf = parent.blobShnarf
  next : s.requests.IsChain fun r r' => r'.prevShnarf = r.expectedShnarfResult.expectedShnarf
  computed : ∀ r ∈ s.requests, r.expectedShnarfResult = services.shnarf r.blob r.prevShnarf
  reference : s.parentBlobShnarfMetaDataReference = s.requests.getLast?.map (·.metaData)
  matched : .parentMismatch ∉ s.failures

variable {services} {blobs : List (Blob Data)} {s : State Data Hash}

theorem Linked.fail {failure : Failure} (h : Linked services blobs s)
    (hne : failure ≠ .parentMismatch) : Linked services blobs (s.fail failure) :=
  { h with matched := by simp [State.fail, h.matched, hne.symm] }

theorem Linked.parent (h : Linked services blobs s) (hblobs : Consecutive blobs)
    (hq : s.blobsToHandle = blob :: rest) (lookup : Bool) :
    (∃ e, getParentBlobData services s.parentBlobShnarfMetaDataReference lookup blob = .error e ∧
      e ≠ .parentMismatch) ∨
    ∃ parent, getParentBlobData services s.parentBlobShnarfMetaDataReference lookup blob =
        .ok parent ∧
      (s.requests = [] → getParentBlobData services none true blob = .ok parent) ∧
      ∀ r ∈ s.requests.getLast?, parent.blobShnarf = r.expectedShnarfResult.expectedShnarf := by
  rw [h.reference]
  rcases List.eq_nil_or_concat s.requests with hnil | ⟨before, r, hlast⟩
  · rw [hnil]
    unfold getParentBlobData
    generalize blockBefore blob.startBlockNumber = n
    by_cases h0 : n = 0
    · simp [h0]
    · simp only [h0, if_false]
      cases services.findBlobByEndBlockNumber n <;> cases lookup <;> simp
  · have hchain := hblobs.next
    rw [← h.order, hq, hlast] at hchain
    have hstart : blob.startBlockNumber = r.blob.endBlockNumber + 1 := by
      have := (List.isChain_append.mp hchain).2.2 r.blob (by simp) blob (by simp)
      exact this
    obtain ⟨hr0, hr, -⟩ := hblobs.blocks r.blob (by rw [← h.order, hlast]; simp)
    obtain ⟨-, hle, hb⟩ := hblobs.blocks blob (by rw [← h.order, hq]; simp)
    have hbefore : blockBefore blob.startBlockNumber = r.blob.endBlockNumber := by
      rw [hstart]
      exact blockBefore_succ (by omega)
    have hne : ¬ r.blob.endBlockNumber = 0 := by omega
    refine .inr ⟨r.metaData, ?_, by simp [hlast], ?_⟩
    · unfold getParentBlobData
      rw [hbefore]
      simp [hlast, hne, BlobCompressionProofRequest.metaData]
    · simp [hlast, BlobCompressionProofRequest.metaData]

theorem Linked.step (h : Linked services blobs s) (hblobs : Consecutive blobs)
    (ha : ∀ attempt, a = .handleBlobFromTheQueue attempt → attempt.proofRequest = .created) :
    Linked services (blobs ++ arrived [a]) (s.step services a) := by
  cases a with
  | handleBlob blob =>
    refine { h with order := ?_ }
    simp [State.step, arrived, ← h.order]
  | handleBlobFromTheQueue attempt =>
    have hcreated := ha attempt rfl
    simp only [arrived, List.filterMap_cons, List.filterMap_nil, List.append_nil, State.step]
    split
    · exact h
    · rename_i blob rest hq
      unfold State.sendBlobToCompressionProver
      by_cases hz : attempt.zkState = false
      · rw [if_pos hz]
        exact h.fail (by decide)
      rw [if_neg hz]
      rcases h.parent hblobs hq attempt.parentLookup with ⟨e, he, hne⟩ | ⟨parent, hp, hfirst, hlast⟩
      · rw [he]
        exact h.fail hne
      · simp only [hp, hcreated]
        split_ifs with hs
        · exact h.fail (by decide)
        refine ⟨by simp [← h.order, hq], ?_, ?_, ?_, by simp, h.matched⟩
        · cases hr : s.requests with
          | nil => simpa using ⟨parent, hfirst hr, rfl⟩
          | cons r requests =>
            have := h.first
            rw [hr] at this
            simpa using this
        · refine List.isChain_append.mpr ⟨h.next, List.isChain_singleton _, ?_⟩
          simpa using hlast
        · simp only [List.forall_mem_append]
          exact ⟨h.computed, by simp⟩

theorem Consecutive.left (h : Consecutive (blobs ++ blobs')) : Consecutive blobs :=
  ⟨fun b hb => h.blocks b (List.mem_append_left _ hb), h.next.left_of_append⟩

/-- As long as no proof request fails, whatever fails before it. -/
theorem shnarfs_chained (services : Services Data Hash) (actions : List (Action Data))
    (hblobs : Consecutive (arrived actions))
    (hcreated : ∀ a, .handleBlobFromTheQueue a ∈ actions → a.proofRequest = .created) :
    Linked services (arrived actions) (run services actions) := by
  induction actions using List.reverseRecOn with
  | nil => exact ⟨rfl, by simp [run], .nil, by simp [run], rfl, by simp [run]⟩
  | append_singleton actions a ih =>
    rw [arrived, List.filterMap_append] at hblobs
    have h := ih hblobs.left fun a' ha' => hcreated a' (List.mem_append_left _ ha')
    rw [run, List.foldl_concat, arrived, List.filterMap_append]
    exact h.step hblobs.left fun attempt he => hcreated attempt (by simp [he])

end

/-- A toy library that counts the blobs of the chain. -/
def toyServices : Services Nat Nat where
  genesisShnarf := 0
  zeroHash := 0
  parentStateRootHash _ := 0
  finalStateRootHash _ := 0
  calculateShnarf data _ _ prevShnarf _ _ := ⟨data, prevShnarf + 1⟩
  findBlobByEndBlockNumber _ := none

def toyBlobs : List (Action Nat) :=
  [.handleBlob ⟨⟨1, 1⟩, [1], 7⟩, .handleBlob ⟨⟨2, 3⟩, [2, 3], 8⟩,
    .handleBlobFromTheQueue ⟨true, true, true, .created⟩]

/-- The shnarf of the second blob is computed at its second attempt. -/
theorem shnarfs_chained_two :
    let s := run toyServices (toyBlobs ++ [.handleBlobFromTheQueue ⟨true, true, false, .created⟩,
      .handleBlobFromTheQueue ⟨true, true, true, .created⟩])
    s.requests.map (·.expectedShnarfResult.expectedShnarf) = [1, 2] ∧ s.failures = [.shnarf] ∧
      .parentMismatch ∉ s.failures :=
  ⟨rfl, rfl, (shnarfs_chained toyServices _ ⟨by decide, by decide⟩ (by simp [toyBlobs])).matched⟩

/-- After one failed proof request the blob is rejected although nothing fails any more. -/
theorem retry_rejected :
    let s := run toyServices (toyBlobs ++ [.handleBlobFromTheQueue ⟨true, true, true, .failed⟩,
      .handleBlobFromTheQueue ⟨true, true, true, .created⟩])
    s.failures = [.proofRequest, .parentMismatch] ∧ s.requests.length = 1 ∧
      s.blobsToHandle.length = 1 :=
  ⟨rfl, rfl, rfl⟩

end StatusNetwork.Coordinator.ShnarfChain
