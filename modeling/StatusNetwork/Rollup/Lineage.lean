import StatusNetwork.Rollup.Effects

/-!
# Data lineage

The shnarfs that the contract knows form a tree. Its root is the genesis shnarf, and every other
shnarf is computed from its parent over all blobs of one transaction. The finalized shnarf is in
the tree, if the contract is its own shnarf provider, and commits to the finalized state root.
-/

namespace StatusNetwork.Rollup

open Security (Address)

variable {D : Type} [DecidableEq D] [Zero D] (H : Hashing D)

/-- The shnarf of its components. -/
def shnarfOf (data : ShnarfData D) : D :=
  H.computeShnarf data.parentShnarf data.snarkHash data.finalStateRootHash data.dataEvaluationPoint
    data.dataEvaluationClaim

def dataEvaluationPoint (blob : BlobSubmission D) (blobhash : D) : D :=
  H.efficientKeccak blob.snarkHash blobhash

/-- The shnarf that a blob adds to its parent. -/
def blobShnarf (parentShnarf : D) (blob : BlobSubmission D × D) : D :=
  shnarfOf H {
    parentShnarf
    snarkHash := blob.1.snarkHash
    finalStateRootHash := blob.1.finalStateRootHash
    dataEvaluationPoint := dataEvaluationPoint H blob.1 blob.2
    dataEvaluationClaim := H.bytes32 blob.1.dataEvaluationClaim }

/-- The precompile confirms the claim of a blob at its evaluation point. -/
def Evaluated (precompile : Precompile D) (blob : BlobSubmission D × D) : Prop :=
  precompile blob.2 (H.uint256 (dataEvaluationPoint H blob.1 blob.2) % BLS_CURVE_MODULUS)
      blob.1.dataEvaluationClaim blob.1.kzgCommitment blob.1.kzgProof =
    .returned POINT_EVALUATION_RETURN_DATA_LENGTH POINT_EVALUATION_FIELD_ELEMENTS_LENGTH
      BLS_CURVE_MODULUS

namespace Submission

/-- The blobs of the transaction, each with its supporting data. -/
def covered (submission : Submission D) : List (BlobSubmission D × D) :=
  submission.blobSubmissions.zip submission.blobs.hashes

/-- A submission covers all blobs of its transaction and leads over them to its shnarf. -/
structure Covers (submission : Submission D) : Prop where
  some_blob : submission.blobSubmissions ≠ []
  all_blobs : submission.blobSubmissions.length = submission.blobs.hashes.length
  fold : submission.finalBlobShnarf =
    submission.covered.foldl (blobShnarf H) submission.parentShnarf
  evaluated : ∀ blob ∈ submission.covered, Evaluated H submission.precompile blob

end Submission

def shnarfs (genesis : D) (submissions : List (Submission D)) : List D :=
  genesis :: submissions.map (·.finalBlobShnarf)

/-- Submissions that grow a tree from the genesis shnarf. -/
inductive Tree (genesis : D) : List (Submission D) → Prop
  | root : Tree genesis []
  | grow : Tree genesis submissions →
    submission.parentShnarf ∈ shnarfs genesis submissions →
    submission.finalBlobShnarf ∉ shnarfs genesis submissions →
    submission.Covers H → Tree genesis (submissions ++ [submission])

-- One submission

variable {H}

theorem submitBlob_ok (h : submitBlob H precompile blobs parent blob k = .ok x) :
    ∃ hk : k < blobs.hashes.length, x = blobShnarf H parent (blob, blobs.hashes[k]) ∧
      Evaluated H precompile (blob, blobs.hashes[k]) := by
  simp only [submitBlob, bind_eq_ok, failIf_eq_ok] at h
  obtain ⟨-, hne, _, hverify, ⟨⟩⟩ := h
  have hk : k < blobs.hashes.length := by
    by_contra hk
    exact hne (by simp [Blobs.blobhash, hk])
  have hget : blobs.blobhash k = blobs.hashes[k] := by simp [Blobs.blobhash, hk]
  rw [hget] at hverify ⊢
  refine ⟨hk, rfl, ?_⟩
  unfold verifyPointEvaluation at hverify
  split at hverify
  · cases hverify
  · rename_i length fieldElements modulus hanswer
    simp only [bind_eq_ok, failIf_eq_ok, not_not, not_or] at hverify
    obtain ⟨-, rfl, rfl, rfl⟩ := hverify
    exact hanswer

/-- The loop goes over the blobs of the transaction from the `k`-th on. -/
theorem submitBlobs_loop
    (h : (submissions.zipIdx k).foldlM (fun computedShnarf (p : BlobSubmission D × Nat) =>
      submitBlob H precompile blobs computedShnarf p.1 p.2) parent = .ok x) :
    (submissions = [] ∨ k + submissions.length ≤ blobs.hashes.length) ∧
      x = (submissions.zip (blobs.hashes.drop k)).foldl (blobShnarf H) parent ∧
      ∀ p ∈ submissions.zip (blobs.hashes.drop k), Evaluated H precompile p := by
  induction submissions generalizing k parent with
  | nil =>
    cases h
    simp
  | cons blob rest ih =>
    simp only [List.zipIdx_cons, List.foldlM_cons, bind_eq_ok] at h
    obtain ⟨y, hfirst, h⟩ := h
    obtain ⟨hk, rfl, heval⟩ := submitBlob_ok hfirst
    obtain ⟨hlen, hfold, hrest⟩ := ih h
    rw [List.drop_eq_getElem_cons hk]
    refine ⟨.inr ?_, hfold, ?_⟩
    · rcases hlen with rfl | hlen
      · exact hk
      · simp only [List.length_cons]
        omega
    · rintro p (_ | ⟨_, hp⟩)
      · exact heval
      · exact hrest p ‹_›

theorem Submission.covers
    (hcovers : submission.blobs.blobhash submission.blobSubmissions.length = 0)
    (hsome : submission.blobSubmissions ≠ [])
    (hshnarf : LineaRollup.computedShnarf H submission = .ok submission.finalBlobShnarf) :
    submission.Covers H := by
  obtain ⟨hlen, hfold, heval⟩ := submitBlobs_loop hshnarf
  refine ⟨hsome, ?_, hfold, heval⟩
  have hle := hlen.resolve_left hsome
  rw [Nat.zero_add] at hle
  refine hle.antisymm (Nat.le_of_not_lt fun hlt => ?_)
  -- a blob beyond the submissions would have a hash
  refine submission.blobs.hashes_ne _ (List.getElem_mem hlt) ?_
  simpa [Blobs.blobhash, hlt] using hcovers

-- Runs

namespace LineaRollup

variable (H) in
def execute (s : LineaRollup D) (tx : Tx D) : LineaRollup D :=
  match s.apply H tx with
  | .ok s' => s'
  | .error _ => s

variable (H) in
/-- A contract at the address `account`, deployed with `data`. -/
def Deployed (account : Address) (data : BaseInitializationData D) (s : LineaRollup D) : Prop :=
  ∃ balance now livenessRecoveryOperator yieldManager,
    initialized H account balance now data livenessRecoveryOperator yieldManager = .ok s

def submissions (log : List (Event D)) : List (Submission D) :=
  log.filterMap fun
    | .submitted submission => some submission
    | _ => none

/-- The shnarf provider that a deployment ends up with. -/
def providerOf (account : Address) (data : BaseInitializationData D) : Address :=
  if data.shnarfProvider = 0 then account else data.shnarfProvider

variable (H) in
structure Lineage (account : Address) (data : BaseInitializationData D) (s : LineaRollup D)
    (log : List (Event D)) : Prop where
  self_eq : s.self = account
  provider_eq : s.shnarfProvider = providerOf account data
  tree : Tree H (genesisShnarf H data.initialStateRootHash) (submissions log)
  known : ∀ x, s.blobShnarfExists x =
    if x ∈ shnarfs (genesisShnarf H data.initialStateRootHash) (submissions log)
    then SHNARF_EXISTS_DEFAULT_VALUE else 0
  finalized : providerOf account data = account → s.currentFinalizedShnarf ∈
    shnarfs (genesisShnarf H data.initialStateRootHash) (submissions log)
  root : ∃ components, shnarfOf H components = s.currentFinalizedShnarf ∧
    components.finalStateRootHash = s.stateRootHashes s.currentL2BlockNumber

variable {s s' : LineaRollup D} {tx : Tx D} {account : Address} {data : BaseInitializationData D}

theorem Lineage.known_iff (h : Lineage H account data s log) :
    s.blobShnarfExists x ≠ 0 ↔
      x ∈ shnarfs (genesisShnarf H data.initialStateRootHash) (submissions log) := by
  rw [h.known]
  split <;> simp_all [SHNARF_EXISTS_DEFAULT_VALUE]

omit [DecidableEq D] in
theorem shnarfs_concat (genesis : D) (l : List (Submission D)) (submission : Submission D) :
    shnarfs genesis (l ++ [submission]) = shnarfs genesis l ++ [submission.finalBlobShnarf] := by
  simp [shnarfs]

theorem Lineage.keep (h : Lineage H account data s log) (hlog : submissions more = [])
    (hself : s'.self = s.self) (hprovider : s'.shnarfProvider = s.shnarfProvider)
    (hknown : s'.blobShnarfExists = s.blobShnarfExists)
    (hshnarf : s'.currentFinalizedShnarf = s.currentFinalizedShnarf)
    (hroots : s'.stateRootHashes = s.stateRootHashes)
    (hblock : s'.currentL2BlockNumber = s.currentL2BlockNumber) :
    Lineage H account data s' (log ++ more) := by
  have hsame : submissions (log ++ more) = submissions log := by
    rw [submissions, List.filterMap_append]
    exact (congrArg (submissions log ++ ·) hlog).trans (List.append_nil _)
  exact ⟨hself ▸ h.self_eq, hprovider ▸ h.provider_eq, hsame ▸ h.tree, hsame ▸ hknown ▸ h.known,
    hsame ▸ hshnarf ▸ h.finalized, hshnarf ▸ hroots ▸ hblock ▸ h.root⟩

theorem Lineage.submit (h : Lineage H account data s log) (hcovers : submission.Covers H)
    (hparent : s.blobShnarfExists submission.parentShnarf ≠ 0)
    (hfresh : s.blobShnarfExists submission.finalBlobShnarf = 0) :
    Lineage H account data { s with
        blobShnarfExists := Function.update s.blobShnarfExists submission.finalBlobShnarf
          SHNARF_EXISTS_DEFAULT_VALUE } (log ++ [.submitted submission]) := by
  have hsubs : submissions (log ++ [.submitted submission]) = submissions log ++ [submission] := by
    simp [submissions]
  have hnew : submission.finalBlobShnarf ∉
      shnarfs (genesisShnarf H data.initialStateRootHash) (submissions log) := by
    rw [← h.known_iff, not_not]
    exact hfresh
  refine ⟨h.self_eq, h.provider_eq, ?_, fun x => ?_, fun hlocal => ?_, h.root⟩
  · rw [hsubs]
    exact h.tree.grow (h.known_iff.mp hparent) hnew hcovers
  · rw [hsubs, shnarfs_concat]
    by_cases hx : x = submission.finalBlobShnarf
    · simp [hx]
    · simp [hx, h.known x]
  · rw [hsubs, shnarfs_concat]
    exact List.mem_append_left _ (h.finalized hlocal)

theorem Lineage.step (h : Lineage H account data s log) (heffect : Effect H s tx s') :
    Lineage H account data s' (log ++ events s tx s') := by
  cases heffect with
  | submits submission hlog hcovers hsome hshnarf hparent hfresh hs =>
    rw [hlog]
    subst hs
    exact h.submit (Submission.covers hcovers hsome hshnarf) hparent hfresh
  | finalizes final f depths finalizedState hlog hdepths hexists hs =>
    have hsame : submissions (log ++ [Event.finalized final]) = submissions log := by
      simp [submissions]
    rw [hlog]
    subst hs
    refine ⟨h.self_eq, h.provider_eq, hsame ▸ h.tree, hsame ▸ h.known, fun hlocal => ?_,
      final.shnarfData, rfl, by simp⟩
    rw [hsame, ← h.known_iff]
    rwa [providedShnarfExists, h.provider_eq, hlocal, h.self_eq, if_pos rfl] at hexists
  | settles _ _ _ _ _ hlog hs | sends _ _ hlog _ hs | claims _ _ _ _ hlog _ _ _ _ hs
  | finishes _ _ hlog _ _ _ hs =>
    rw [hlog]
    subst hs
    exact h.keep rfl rfl rfl rfl rfl rfl rfl

theorem Deployed.lineage (h : Deployed H account data s) : Lineage H account data s [] := by
  obtain ⟨balance, now, livenessRecoveryOperator, yieldManager, h⟩ := h
  simp only [initialized, bind_eq_ok] at h
  obtain ⟨-, -, limiter, -, -, -, roles, -, -, -, -, -, ⟨⟩⟩ := h
  refine ⟨rfl, rfl, .root, fun x => ?_, fun _ => ?_,
    ⟨0, 0, data.initialStateRootHash, 0, 0⟩, rfl, ?_⟩
  · simp [submissions, shnarfs, Function.update_apply]
  · simp [submissions, shnarfs]
  · simp

/-- The data of the rollup form a tree from the genesis shnarf, the finalized shnarf is that of the
finalized state root and, if the contract is its own provider, in the tree, and a finalization that
fails changes nothing. -/
theorem data_lineage (hinj : Function.Injective (shnarfOf H))
    (h : RunFrom H (Deployed H account data) s now log) :
    Tree H (genesisShnarf H data.initialStateRootHash) (submissions log) ∧
    (∀ x, s.blobShnarfExists x = 1 ↔
      x ∈ shnarfs (genesisShnarf H data.initialStateRootHash) (submissions log)) ∧
    (providerOf account data = account → s.currentFinalizedShnarf ∈
      shnarfs (genesisShnarf H data.initialStateRootHash) (submissions log)) ∧
    (∃! components, shnarfOf H components = s.currentFinalizedShnarf) ∧
    (∀ components, shnarfOf H components = s.currentFinalizedShnarf →
      components.finalStateRootHash = s.stateRootHashes s.currentL2BlockNumber) ∧
    ∀ e f proof proofType final error,
      s.finalizeBlocks H e f proof proofType final = .error error →
        s.execute H ⟨e, .finalizeBlocks f proof proofType final⟩ = s := by
  have hlineage : Lineage H account data s log := by
    refine run_invariant ?_ (fun s hs => hs.lineage) (fun s log tx s' hI => hI.step) h
    rintro s ⟨balance, now, livenessRecoveryOperator, yieldManager, hs⟩
    exact ⟨account, balance, now, data, livenessRecoveryOperator, yieldManager, hs⟩
  obtain ⟨components, hshnarf, hroot⟩ := hlineage.root
  refine ⟨hlineage.tree, fun x => ?_, hlineage.finalized,
    ⟨components, hshnarf, fun other hother => hinj (hother.trans hshnarf.symm)⟩,
    fun other hother => ?_, ?_⟩
  · rw [hlineage.known]
    split <;> simp_all [SHNARF_EXISTS_DEFAULT_VALUE]
  · obtain rfl := hinj (hother.trans hshnarf.symm)
    exact hroot
  · intro e f proof proofType final error hfail
    simp only [execute, apply, hfail]

def sampleShnarf : Word :=
  .shnarf (genesisShnarf symbolic (.number 1)) (.number 2) (.number 3)
    (.keccak (.number 2) (.number 9)) (.number 4)

/-- One blob, submitted on top of the genesis shnarf and finalized. -/
theorem data_lineage_one_blob :
    ∃ s log, RunFrom symbolic (Deployed symbolic 7 deployment) s 3 log ∧
      s.currentFinalizedShnarf = sampleShnarf ∧
      sampleShnarf ∈ shnarfs (genesisShnarf symbolic (.number 1)) (submissions log) := by
  have h₀ : Deployed symbolic 7 deployment deployed := ⟨100, 0, 1, 1, rfl⟩
  have hinj : Function.Injective (shnarfOf symbolic) := by
    rintro ⟨⟩ ⟨⟩ h
    simpa [shnarfOf, symbolic] using h
  obtain ⟨s, log, hrun, hobs⟩ : ∃ s log,
      RunFrom symbolic (Deployed symbolic 7 deployment) s 3 log ∧
        s.currentFinalizedShnarf = sampleShnarf :=
    Runs.exists_logged (apply symbolic) (fun _ _ _ h => h) 0 h₀
      [⟨⟨2, 0, 2, by decide⟩, .submitBlobs
          (fun _ _ _ _ _ => .returned 64 4096 BLS_CURVE_MODULUS) ⟨[.number 9], by decide⟩
          [⟨4, [], [], .number 3, .number 2⟩] (genesisShnarf symbolic (.number 1)) sampleShnarf⟩,
        ⟨⟨2, 0, 3, by decide⟩, .finalizeBlocks ⟨fun _ => 0, 0, fun _ _ _ => .returned true⟩ [0] 0
          ⟨.number 1, 1, ⟨genesisShnarf symbolic (.number 1), .number 2, .number 3,
            .keccak (.number 2) (.number 9), .number 4⟩, 0, 1, 0, 0, 0, 0, 0, [], []⟩⟩]
      (fun s _ => s.currentFinalizedShnarf) (by decide +kernel)
  exact ⟨s, log, hrun, hobs, hobs ▸ (data_lineage hinj hrun).2.2.1 rfl⟩

/-- With another contract as its shnarf provider, the contract finalizes a shnarf that was never
submitted to it. -/
theorem finalized_shnarf_unknown :
    ∃ s log, RunFrom symbolic
        (Deployed symbolic 7 { deployment with shnarfProvider := 5 }) s 2 log ∧
      (s.currentFinalizedShnarf, s.blobShnarfExists s.currentFinalizedShnarf) =
        (.shnarf 0 0 (.number 2) 0 0, 0) := by
  have h₀ : Deployed symbolic 7 { deployment with shnarfProvider := 5 }
      ((initialized symbolic 7 100 0 { deployment with shnarfProvider := 5 } 1 1).toOption.get
        rfl) :=
    ⟨100, 0, 1, 1, rfl⟩
  exact Runs.exists_logged (apply symbolic) (fun _ _ _ h => h) 0 h₀
    [⟨⟨2, 0, 2, by decide⟩, .finalizeBlocks ⟨fun _ => 1, 0, fun _ _ _ => .returned true⟩ [0] 0
        ⟨.number 1, 1, ⟨0, 0, .number 2, 0, 0⟩, 0, 1, 0, 0, 0, 0, 0, [], []⟩⟩]
    (fun s _ => (s.currentFinalizedShnarf, s.blobShnarfExists s.currentFinalizedShnarf))
    (by decide +kernel)

end LineaRollup

end StatusNetwork.Rollup
