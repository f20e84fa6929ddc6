import StatusNetwork.Rollup.Effects

/-!
# Messages from L2 to L1

In every run of the contract, whoever calls it again during a claim, a message number is consumed
once over both entry points, a claimed message is a leaf of a tree whose root was anchored by a
finalization, and a claim moves no more ETH out of the contract than its value and its fee. Each
finalization goes on from the one before it.
-/

namespace StatusNetwork.Rollup

open Messaging (Claim ClaimMessageWithProofParams L1MessageService)

namespace LineaRollup

theorem Claim.cost_le {claim : Claim D} (h : claim.params? = some params) :
    claim.callValue + claim.fee ≤ params.value + params.fee := by
  cases claim with
  | claimMessageWithProof params' =>
    cases h
    exact le_rfl
  | claimMessageWithProofAndWithdrawLST params' => exact Nat.zero_le _
  | claimMessage message feeRecipient => cases h

variable {D : Type} [DecidableEq D] [Zero D] (H : Hashing D)

def finalizations (log : List (Event D)) : List (FinalizationDataV3 D) :=
  log.filterMap fun
    | .finalized data => some data
    | _ => none

def claims (log : List (Event D)) : List (Claim D × Nat) :=
  log.filterMap fun
    | .claimed claim moved => some (claim, moved)
    | _ => none

def proofs (log : List (Event D)) : List (ClaimMessageWithProofParams D) :=
  (claims log).filterMap fun p => p.1.params?

/-- The root of the proof was anchored by a finalization, at the depth of a tree in which the
message is the leaf at the index of the proof. -/
def Authentic (log : List (Event D)) (params : ClaimMessageWithProofParams D) : Prop :=
  ∃ data ∈ finalizations log, params.merkleRoot ∈ data.l2MerkleRoots ∧
    data.l2MerkleTreesDepth ≠ 0 ∧ params.leafIndex.toNat < 2 ^ data.l2MerkleTreesDepth ∧
    ∀ leaf, Merkle.node H.efficientKeccak leaf data.l2MerkleTreesDepth 0 = params.merkleRoot →
      leaf params.leafIndex.toNat = H.hashMessage params.message

/-- The proofs of the claims, the one under way included. -/
def consumed (s : LineaRollup D) (log : List (Event D)) : List (ClaimMessageWithProofParams D) :=
  proofs log ++ (s.inFlight.bind fun flight => flight.claim.params?).toList

variable {H} {s : LineaRollup D}

section
omit [DecidableEq D]
variable (log log' : List (Event D))

@[simp] theorem finalizations_append :
    finalizations (log ++ log') = finalizations log ++ finalizations log' :=
  List.filterMap_append

@[simp] theorem claims_append : claims (log ++ log') = claims log ++ claims log' :=
  List.filterMap_append

end

omit [DecidableEq D] in
theorem Authentic.mono (h : Authentic H log params) : Authentic H (log ++ more) params := by
  obtain ⟨data, hmem, h⟩ := h
  exact ⟨data, by simp [hmem], h⟩

-- Roots

/-- Every root was anchored by a finalization. -/
def Anchored (s : LineaRollup D) (log : List (Event D)) : Prop :=
  ∀ root, s.l2MerkleRootsDepths root ≠ 0 → ∃ data ∈ finalizations log,
    root ∈ data.l2MerkleRoots ∧ data.l2MerkleTreesDepth = s.l2MerkleRootsDepths root

theorem Anchored.step (h : Anchored s log) (heffect : Effect H s tx s') :
    Anchored s' (log ++ events s tx s') := by
  have hkeep : s'.l2MerkleRootsDepths = s.l2MerkleRootsDepths →
      Anchored s' (log ++ events s tx s') := by
    intro hsame root hne
    rw [hsame] at hne ⊢
    obtain ⟨data, hmem, h⟩ := h root hne
    exact ⟨data, by simp [hmem], h⟩
  cases heffect with
  | finalizes data f depths finalizedState hlog hdepths hexists hs =>
    rw [hlog]
    subst hs
    intro root hne
    rcases hdepths root with hold | ⟨hmem, hnew⟩
    · obtain ⟨data', hmem', h⟩ := h root (hold ▸ hne)
      exact ⟨data', by simp [hmem'], h.1, h.2.trans hold.symm⟩
    · exact ⟨data, by simp [finalizations], hmem, hnew.symm⟩
  | settles _ _ _ _ _ _ hs | sends _ _ _ _ hs | submits _ _ _ _ _ _ _ hs
  | claims _ _ _ _ _ _ _ _ _ hs | finishes _ _ _ _ _ _ hs =>
    subst hs
    exact hkeep rfl

omit [DecidableEq D] in
/-- Where hashes do not collide, a proof that is accepted leads to its leaf. -/
theorem Anchored.authentic (hinj : Function.Injective2 H.efficientKeccak) (h : Anchored s log)
    (hp : L1MessageService.Proves H.toHashing s.toL1MessageService params) :
    Authentic H log params := by
  obtain ⟨data, hmem, hroot, hdepth⟩ := h params.merkleRoot hp.depth_ne_zero
  have hlen : data.l2MerkleTreesDepth = params.proof.length := hdepth.trans hp.depth_eq
  refine ⟨data, hmem, hroot, hdepth ▸ hp.depth_ne_zero, hlen ▸ hp.index_lt, fun leaf hleaf => ?_⟩
  have hsound := Merkle.fold_sound H.efficientKeccak hinj.uncurry.injOn
    (Set.subset_univ _) hlen.ge hp.index_lt (fun _ _ => trivial) (hp.fold_eq.trans hleaf.symm)
  rw [hlen, Nat.sub_self] at hsound
  exact hsound.1.symm

-- Claims

/-- Every claim has a proof, and those that were paid stayed within their value and fee. -/
structure Paid (s : LineaRollup D) (log : List (Event D)) : Prop where
  flying : ∀ flight, s.inFlight = some flight → ∃ params, flight.claim.params? = some params
  paid : ∀ p ∈ claims log, ∃ params, p.1.params? = some params ∧ p.2 ≤ p.1.callValue + p.1.fee

theorem Paid.step (h : Paid s log) (heffect : Effect H s tx s') :
    Paid s' (log ++ events s tx s') := by
  cases heffect with
  | claims flight params limiter balance hlog hidle hparams hproves hbalance hs =>
    subst hs
    refine ⟨?_, by simpa [hlog, claims] using h.paid⟩
    rintro _ ⟨⟩
    exact ⟨params, hparams⟩
  | finishes flight paid hlog hflight hpaid hbalance hs =>
    subst hs
    obtain ⟨params, hparams⟩ := h.flying flight hflight
    refine ⟨nofun, fun p hp => ?_⟩
    rw [hlog, claims_append] at hp
    rcases List.mem_append.mp hp with hp | hp
    · exact h.paid p hp
    · obtain rfl : p = (flight.claim, flight.claim.callValue + paid) := by simpa [claims] using hp
      exact ⟨params, hparams, Nat.add_le_add_left hpaid _⟩
  | settles _ _ _ _ _ hlog hs | sends _ _ hlog _ hs | submits _ hlog _ _ _ _ _ hs
  | finalizes _ _ _ _ hlog _ _ hs =>
    subst hs
    exact ⟨h.flying, by simpa [hlog, claims] using h.paid⟩

variable (H) in
/-- The numbers marked as claimed are those of the proofs consumed, each once. -/
structure Consumes (s : LineaRollup D) (log : List (Event D)) : Prop where
  authentic : ∀ params ∈ consumed s log, Authentic H log params
  numbers : ((consumed s log).map (·.messageNumber)).Nodup
  claimed : ∀ n, s.messageClaimed n = true ↔ n ∈ (consumed s log).map (·.messageNumber)

omit [DecidableEq D] in
theorem Consumes.keep (h : Consumes H s log)
    (hconsumed : consumed s' (log ++ more) = consumed s log)
    (hclaimed : s'.messageClaimed = s.messageClaimed) : Consumes H s' (log ++ more) := by
  refine ⟨?_, hconsumed ▸ h.numbers, hconsumed ▸ hclaimed ▸ h.claimed⟩
  intro params hmem
  rw [hconsumed] at hmem
  exact (h.authentic params hmem).mono

theorem Consumes.step (hinj : Function.Injective2 H.efficientKeccak) (hroots : Anchored s log)
    (h : Consumes H s log) (heffect : Effect H s tx s') :
    Consumes H s' (log ++ events s tx s') := by
  cases heffect with
  | claims flight params limiter balance hlog hidle hparams hproves hbalance hs =>
    have hold : consumed s log = proofs log := by simp [consumed, hidle]
    have hnew : consumed s' log = consumed s log ++ [params] := by
      rw [hold]
      simp [consumed, hs, hparams]
    rw [hlog, List.append_nil]
    have hauthentic := h.authentic
    have hnumbers := h.numbers
    have hclaimed := h.claimed
    have hfresh : params.messageNumber ∉ (consumed s log).map (·.messageNumber) := by
      rw [← hclaimed, hproves.fresh]
      simp
    refine ⟨fun p hp => ?_, ?_, fun n => ?_⟩
    · rw [hnew] at hp
      rcases List.mem_append.mp hp with hp | hp
      · exact hauthentic p hp
      · obtain rfl := List.mem_singleton.mp hp
        exact hroots.authentic hinj hproves
    · rw [hnew, List.map_append]
      exact List.nodup_append_comm.mp (List.nodup_cons.mpr ⟨hfresh, hnumbers⟩)
    · rw [hnew, List.map_append, List.mem_append, ← hclaimed]
      by_cases hn : n = params.messageNumber <;> simp [hs, hn]
  | finishes flight paid hlog hflight hpaid hbalance hs =>
    rw [hlog]
    refine h.keep ?_ (by rw [hs])
    cases hparams : flight.claim.params? <;>
      simp [consumed, hflight, hs, proofs, claims, hparams]
  | settles _ _ _ _ _ hlog hs | sends _ _ hlog _ hs | submits _ hlog _ _ _ _ _ hs
  | finalizes _ _ _ _ hlog _ _ hs =>
    subst hs
    rw [hlog]
    refine h.keep ?_ rfl
    simp [consumed, proofs, claims]

-- Runs

theorem Initial.claims_spec (h : Initial H s) : Anchored s [] ∧ Paid s [] ∧ Consumes H s [] := by
  obtain ⟨self, balance, now, data, livenessRecoveryOperator, yieldManager, h⟩ := h
  simp only [initialized, bind_eq_ok] at h
  obtain ⟨-, -, limiter, -, -, -, roles, -, -, -, -, -, ⟨⟩⟩ := h
  refine ⟨fun root hne => absurd rfl hne, ⟨by simp, by simp [claims]⟩, ?_, ?_, ?_⟩ <;>
    simp [consumed, proofs, claims]

theorem Run.claims_spec (hinj : Function.Injective2 H.efficientKeccak) (h : Run H s now log) :
    Anchored s log ∧ Paid s log ∧ Consumes H s log := by
  refine run_invariant (I := fun s log => Anchored s log ∧ Paid s log ∧ Consumes H s log)
    (fun _ hs => hs) (fun s hs => hs.claims_spec) ?_ h
  rintro s log tx s' ⟨hanchored, hpaid, hconsumes⟩ heffect
  exact ⟨hanchored.step heffect, hpaid.step heffect, hconsumes.step hinj hanchored heffect⟩

/-- Claims are authentic, happen once and stay within what they claim. -/
theorem claims_authentic_and_once (hinj : Function.Injective2 H.efficientKeccak)
    (h : Run H s now log) :
    (∀ p ∈ claims log, ∃ params, p.1.params? = some params ∧ Authentic H log params ∧
      p.2 ≤ params.value + params.fee) ∧ ((proofs log).map (·.messageNumber)).Nodup := by
  obtain ⟨-, hpaid, hconsumes⟩ := h.claims_spec hinj
  refine ⟨fun p hp => ?_, ?_⟩
  · obtain ⟨params, hparams, hmoved⟩ := hpaid.paid p hp
    have hmem : params ∈ consumed s log :=
      List.mem_append_left _ (List.mem_filterMap.mpr ⟨p, hp, hparams⟩)
    exact ⟨params, hparams, hconsumes.authentic params hmem, hmoved.trans (Claim.cost_le hparams)⟩
  · have hall := hconsumes.numbers
    rw [consumed, List.map_append] at hall
    exact hall.of_append_left

def sampleParams : ClaimMessageWithProofParams Word where
  proof := [.number 0]
  messageNumber := 3
  leafIndex := 0
  sender := 9
  destination := 8
  fee := 2
  value := 5
  feeRecipient := 0
  merkleRoot := .keccak (.message ⟨9, 8, 2, 5, 3, []⟩) (.number 0)
  data := []

def sampleFinalization : FinalizationDataV3 Word where
  parentStateRootHash := .number 1
  endBlockNumber := 1
  shnarfData := ⟨0, 0, .number 1, 0, 0⟩
  lastFinalizedTimestamp := 0
  finalTimestamp := 1
  lastFinalizedL1RollingHash := 0
  l1RollingHash := 0
  lastFinalizedL1RollingHashMessageNumber := 0
  l1RollingHashMessageNumber := 0
  l2MerkleTreesDepth := 1
  l2MerkleRoots := [sampleParams.merkleRoot]
  l2MessagingBlocksOffsets := []

/-- The message is claimed after the finalization; the recipient gets a refund of the fee. -/
theorem claims_authentic_and_once_after_finalization :
    ∃ s now log, Run symbolic s now log ∧ (claims log).map (·.2) = [7] ∧
      ∀ p ∈ claims log, ∃ params, p.1.params? = some params ∧ Authentic symbolic log params := by
  obtain ⟨s, log, hrun, hobs⟩ : ∃ s log, Run symbolic s 3 log ∧ (claims log).map (·.2) = [7] :=
    Runs.exists_logged (apply symbolic) (fun _ _ _ h => h) 0 deployed_initial
      [⟨⟨2, 0, 2, by decide⟩, .finalizeBlocks ⟨fun _ => 0, 0, fun _ _ _ => .returned true⟩ [0] 0
          sampleFinalization⟩,
        ⟨⟨4, 0, 3, by decide⟩, .claim (.claimMessageWithProof sampleParams)⟩,
        ⟨⟨4, 0, 3, by decide⟩, .finishClaim ⟨0, 0, true, fun _ _ => true⟩⟩]
      (fun _ log => (claims log).map (·.2)) (by decide +kernel)
  refine ⟨s, 3, log, hrun, hobs, fun p hp => ?_⟩
  obtain ⟨params, hparams, hauthentic, -⟩ :=
    (claims_authentic_and_once symbolic_injective hrun).1 p hp
  exact ⟨params, hparams, hauthentic⟩

-- Finalizations

variable (H) in
/-- The contract is where the last finalization ended. -/
def AtLast (s : LineaRollup D) (log : List (Event D)) : Prop :=
  ∀ last ∈ (finalizations log).getLast?, s.currentL2BlockNumber = last.endBlockNumber ∧
    s.currentFinalizedShnarf = finalShnarf H last ∧
    s.stateRootHashes last.endBlockNumber = last.shnarfData.finalStateRootHash

theorem AtLast.step (h : AtLast H s log) (heffect : Effect H s tx s') :
    AtLast H s' (log ++ events s tx s') := by
  cases heffect with
  | finalizes data _ _ _ hlog _ _ hs =>
    rw [hlog]
    subst hs
    simp [AtLast, finalizations]
  | settles _ _ _ _ _ hlog hs | sends _ _ hlog _ hs | submits _ hlog _ _ _ _ _ hs
  | claims _ _ _ _ hlog _ _ _ _ hs | finishes _ _ hlog _ _ _ hs =>
    rw [hlog]
    subst hs
    simpa [AtLast, finalizations] using h

/-- A finalization goes on from the state root of the last one, and the verifier has accepted a
proof that starts from the shnarf and the block number of the last one. -/
theorem finalization_continues (h : Run H s now log) (hlast : last ∈ (finalizations log).getLast?)
    (hok : s.finalizeBlocks H e f proof proofType data = .ok s') :
    data.parentStateRootHash = last.shnarfData.finalStateRootHash ∧
      f.verify (s.verifiers proofType) proof (computePublicInput H data (finalShnarf H last)
        (finalShnarf H data) last.endBlockNumber f.chainConfiguration) = .returned true := by
  have hat : AtLast H s log :=
    run_invariant (fun _ hs => hs) (by simp [AtLast, finalizations]) (fun _ _ _ _ => AtLast.step) h
  obtain ⟨hblock, hshnarf, hroot⟩ := hat last hlast
  simp only [finalizeBlocks, bind_eq_ok, failIf_eq_ok, not_not] at hok
  obtain ⟨-, -, -, -, -, -, -, hparent, -, -, _, -, _, hproof, -⟩ := hok
  rw [hblock, hshnarf] at hproof
  rw [hblock, hroot] at hparent
  refine ⟨hparent.symm, ?_⟩
  unfold verifyProof at hproof
  split at hproof <;> simp_all

theorem finalization_continues_second : ∃ s log, Run symbolic s 2 log ∧
    ∃ last ∈ (finalizations log).getLast?, last.endBlockNumber = 1 ∧
      sampleFinalization.parentStateRootHash = last.shnarfData.finalStateRootHash := by
  obtain ⟨s, log, hrun, hobs⟩ : ∃ s log, Run symbolic s 2 log ∧
      ((finalizations log).getLast?.map (·.endBlockNumber), (s.finalizeBlocks symbolic
        ⟨2, 0, 3, by decide⟩ ⟨fun _ => 0, 0, fun _ _ _ => .returned true⟩ [0] 0
        { sampleFinalization with lastFinalizedTimestamp := 1, l2MerkleRoots := [] }).map
          fun _ => ()) = (some 1, .ok ()) :=
    Runs.exists_logged (apply symbolic) (fun _ _ _ h => h) 0 deployed_initial
      [⟨⟨2, 0, 2, by decide⟩, .finalizeBlocks ⟨fun _ => 0, 0, fun _ _ _ => .returned true⟩ [0] 0
        sampleFinalization⟩] _ (by decide +kernel)
  obtain ⟨hlast, hnext⟩ := Prod.mk.inj hobs
  obtain ⟨last, hlast, hend⟩ := Option.map_eq_some_iff.mp hlast
  obtain ⟨_, hok, -⟩ := map_eq_ok.mp hnext
  exact ⟨s, log, hrun, last, hlast, hend, (finalization_continues hrun hlast hok).1⟩

end LineaRollup

end StatusNetwork.Rollup
