import StatusNetwork.Messaging.L1MessageService

/-!
# What the calls of the message service do

One lemma for each function, which says what its success means and what it changes.
-/

namespace StatusNetwork.Messaging

open Security (Address)

variable {D : Type} {H : Hashing D}

-- Merkle proofs

variable (H) in
/-- The loop of the verifier reads the bits of the index as a walk does. -/
theorem foldl_zipIdx_eq_fold (proof : List D) (i k : Nat) (x : D) :
    (proof.zipIdx k).foldl (fun node (p : D × Nat) =>
      if i >>> p.2 &&& 1 = 1 then H.efficientKeccak p.1 node
      else H.efficientKeccak node p.1) x = Merkle.fold H.efficientKeccak x (i >>> k) proof := by
  induction proof generalizing k x with
  | nil => rfl
  | cons sibling rest ih =>
    rw [List.zipIdx_cons, List.foldl_cons, ih, Merkle.fold, Nat.shiftRight_succ, Merkle.combine,
      Nat.and_one_is_mod]

theorem verifyMerkleProof_ok [DecidableEq D]
    (h : verifyMerkleProof H leaf proof leafIndex root = .ok true) :
    leafIndex.toNat < 2 ^ proof.length ∧
      Merkle.fold H.efficientKeccak leaf leafIndex.toNat proof = root := by
  simp only [verifyMerkleProof, safeCastToUint32, bind_eq_ok, failIf_eq_ok,
    Except.ok.injEq, decide_eq_true_eq] at h
  obtain ⟨-, -, _, ⟨-, -, rfl⟩, -, hmax, hroot⟩ := h
  have hpos : 0 < 2 ^ proof.length := Nat.two_pow_pos _
  exact ⟨by omega, (foldl_zipIdx_eq_fold H proof leafIndex.toNat 0 leaf).symm.trans hroot⟩

-- Roots

theorem addL2MerkleRoots_ok [DecidableEq D] {s s' : L1MessageManager D}
    (h : s.addL2MerkleRoots roots depth = .ok s') :
    ∃ depths, s' = { s with l2MerkleRootsDepths := depths } ∧
      ∀ root, depths root = s.l2MerkleRootsDepths root ∨ root ∈ roots ∧ depths root = depth := by
  induction roots generalizing s with
  | nil =>
    cases h
    exact ⟨_, rfl, fun _ => .inl rfl⟩
  | cons first rest ih =>
    simp only [L1MessageManager.addL2MerkleRoots, List.foldlM_cons, bind_eq_ok,
      failIf_eq_ok, Except.ok.injEq] at h
    obtain ⟨_, ⟨-, -, rfl⟩, h⟩ := h
    obtain ⟨depths, rfl, hdepths⟩ := ih h
    refine ⟨depths, rfl, fun root => ?_⟩
    rcases hdepths root with hold | ⟨hmem, hnew⟩
    · by_cases hroot : root = first
      · subst hroot
        exact .inr ⟨List.mem_cons_self, by simpa using hold⟩
      · exact .inl (by simpa [hroot] using hold)
    · exact .inr ⟨List.mem_cons_of_mem _ hmem, hnew⟩

/-- The fee that is due when the external call of a claim has returned. -/
def Claim.fee : Claim D → Nat
  | .claimMessageWithProof params => params.fee
  | .claimMessageWithProofAndWithdrawLST _ => 0
  | .claimMessage message _ => message.fee

namespace L1MessageService

variable {s s' : L1MessageService D}

-- Sending

theorem addMessage_ok (h : s.addMessage H m = .ok s') : s' = { s with
      toL1MessageManager := s.addRollingHash H m.messageNumber (H.hashMessage m)
      nextMessageNumber := s.nextMessageNumber + 1 } := by
  simp only [addMessage, bind_eq_ok, Checked.add_eq_ok] at h
  obtain ⟨_, ⟨-, rfl⟩, ⟨⟩⟩ := h
  rfl

theorem sendMessage_ok (h : s.sendMessage H e destination fee data = .ok s') :
    fee ≤ e.value ∧ ∃ s₁, s.addMessage H (s.sentMessage e destination fee data) = .ok s₁ ∧
      s' = { s₁ with balance := s₁.balance + e.value } := by
  simp only [sendMessage, bind_eq_ok, failIf_eq_ok] at h
  obtain ⟨-, -, -, -, -, hfee, s₁, hadd, ⟨⟩⟩ := h
  exact ⟨by omega, s₁, hadd, rfl⟩

-- Claiming

theorem addUsedAmount_ok (h : s.addUsedAmount now amount = .ok s') :
    ∃ limiter, s' = { s with limiter } := by
  simp only [addUsedAmount, map_eq_ok] at h
  obtain ⟨limiter, -, rfl⟩ := h
  exact ⟨limiter, rfl⟩

/-- A proof that is accepted leads to a root anchored at its length, from a message that was not
claimed before and now is. -/
structure Proves (H : Hashing D) (s : L1MessageService D) (params : ClaimMessageWithProofParams D) :
    Prop where
  depth_ne_zero : s.l2MerkleRootsDepths params.merkleRoot ≠ 0
  depth_eq : s.l2MerkleRootsDepths params.merkleRoot = params.proof.length
  fresh : s.messageClaimed params.messageNumber = false
  index_lt : params.leafIndex.toNat < 2 ^ params.proof.length
  fold_eq : Merkle.fold H.efficientKeccak (H.hashMessage params.message) params.leafIndex.toNat
    params.proof = params.merkleRoot

theorem validateAndConsumeMessageProof_ok [DecidableEq D]
    (h : s.validateAndConsumeMessageProof H now params = .ok s') :
    Proves H s params ∧ ∃ limiter, s' = { s with
      messageClaimed := Function.update s.messageClaimed params.messageNumber true, limiter } := by
  simp only [validateAndConsumeMessageProof, L1MessageManager.setL2L1MessageToClaimed,
    bind_eq_ok, failIf_eq_ok, Except.ok.injEq, Bool.not_eq_false,
    Bool.not_eq_true, not_not] at h
  obtain ⟨-, -, -, hne, -, hdepth, _, ⟨-, hfresh, rfl⟩, _, -, _, hused, valid, hverify, -, rfl,
    rfl⟩ := h
  obtain ⟨limiter, rfl⟩ := addUsedAmount_ok hused
  obtain ⟨hindex, hfold⟩ := verifyMerkleProof_ok hverify
  exact ⟨⟨hne, hdepth, hfresh, hindex, hfold⟩, limiter, rfl⟩

theorem nonReentrant_ok (h : s.nonReentrant = .ok u) : s.inFlight = none := by
  simpa [nonReentrant] using h

theorem callRecipient_ok (h : s.callRecipient sender claim destination value = .ok s') :
    value ≤ s.balance ∧ s' = { s with
      balance := s.balance - value
      inFlight := some ⟨sender, claim⟩ } := by
  simp only [callRecipient, bind_eq_ok, failIf_eq_ok] at h
  obtain ⟨-, hbalance, ⟨⟩⟩ := h
  exact ⟨not_lt.mp hbalance, rfl⟩

theorem claimMessageWithProof_ok [DecidableEq D] (h : s.claimMessageWithProof H e params = .ok s') :
    s.inFlight = none ∧ Proves H s params ∧ params.value ≤ s.balance ∧ ∃ limiter, s' = { s with
      messageClaimed := Function.update s.messageClaimed params.messageNumber true, limiter
      balance := s.balance - params.value
      inFlight := some ⟨e.sender, .claimMessageWithProof params⟩ } := by
  simp only [claimMessageWithProof, bind_eq_ok] at h
  obtain ⟨_, hguard, _, hvalid, hcall⟩ := h
  obtain ⟨hproves, limiter, rfl⟩ := validateAndConsumeMessageProof_ok hvalid
  obtain ⟨hbalance, rfl⟩ := callRecipient_ok hcall
  exact ⟨nonReentrant_ok hguard, hproves, hbalance, limiter, rfl⟩

theorem claimMessageWithProofAndWithdrawLST_ok [DecidableEq D]
    (h : s.claimMessageWithProofAndWithdrawLST H e params = .ok s') :
    s.inFlight = none ∧ Proves H s params ∧ ∃ limiter, s' = { s with
      messageClaimed := Function.update s.messageClaimed params.messageNumber true, limiter
      inFlight := some ⟨e.sender, .claimMessageWithProofAndWithdrawLST params⟩ } := by
  simp only [claimMessageWithProofAndWithdrawLST, bind_eq_ok, failIf_eq_ok] at h
  obtain ⟨_, hguard, -, -, -, -, _, hvalid, ⟨⟩⟩ := h
  obtain ⟨hproves, limiter, rfl⟩ := validateAndConsumeMessageProof_ok hvalid
  exact ⟨nonReentrant_ok hguard, hproves, limiter, rfl⟩

theorem claimMessage_calls [DecidableEq D] (h : s.claimMessage H e message feeRecipient = .ok s') :
    s.inFlight = none ∧ message.value ≤ s.balance ∧ s'.balance = s.balance - message.value ∧
      s'.inFlight = some ⟨e.sender, .claimMessage message feeRecipient⟩ := by
  simp only [claimMessage, bind_eq_ok] at h
  obtain ⟨_, hguard, -, -, _, -, _, -, _, hused, hcall⟩ := h
  obtain ⟨limiter, rfl⟩ := addUsedAmount_ok hused
  obtain ⟨hbalance, rfl⟩ := callRecipient_ok hcall
  exact ⟨nonReentrant_ok hguard, hbalance, rfl, rfl⟩

theorem claimMessage_ok [DecidableEq D] (h : s.claimMessage H e message feeRecipient = .ok s') :
    s.inboxL2L1MessageStatus (H.hashMessage message) = .received := by
  simp only [claimMessage, L1MessageManager.updateL2L1MessageStatusToClaimed, bind_eq_ok,
    failIf_eq_ok, not_not] at h
  obtain ⟨-, -, -, -, _, ⟨-, hstatus, -⟩, -⟩ := h
  exact hstatus

-- Fees

/-- Some ETH leaves the contract, at most `amount`, and nothing else changes. -/
def Pays (s : L1MessageService D) (amount : Nat) (s' : L1MessageService D) : Prop :=
  ∃ paid ≤ amount, paid ≤ s.balance ∧ s' = { s with balance := s.balance - paid }

theorem Pays.trans (h : s.Pays a s') (h' : s'.Pays b s'') : s.Pays (a + b) s'' := by
  obtain ⟨x, hx, hxs, rfl⟩ := h
  obtain ⟨y, hy, hys, rfl⟩ := h'
  simp only at hys
  exact ⟨x + y, by omega, by omega, by simp [Nat.sub_sub]⟩

theorem send_pays (f : FeeEnv) (recipient : Address) (amount : Nat) :
    s.Pays amount (s.send f recipient amount).2 := by
  unfold send
  split
  · rename_i h
    exact ⟨amount, le_rfl, h.1, rfl⟩
  · exact ⟨0, Nat.zero_le _, Nat.zero_le _, rfl⟩

/-- The refund and the delivery fee together are the fee. -/
theorem distributeFees_ok
    (h : s.distributeFees f sender fee destination data feeRecipient = .ok s') : s.Pays fee s' := by
  unfold distributeFees at h
  split at h
  · simp only [bind_eq_ok, failIf_eq_ok] at h
    obtain ⟨⟨s₁, deliveryFee⟩, hfirst, -, -, ⟨⟩⟩ := h
    have hdelivery := send_pays (s := s₁) f
      (if feeRecipient = 0 then sender else feeRecipient) deliveryFee
    split at hfirst
    · simp only [bind_eq_ok, Except.ok.injEq] at hfirst
      obtain ⟨_, -, delivery, -, hsplit⟩ := hfirst
      split at hsplit
      · rename_i hgt
        obtain ⟨rfl, rfl⟩ := Prod.mk.inj hsplit
        have hboth := (send_pays f destination (fee - delivery)).trans hdelivery
        rwa [Nat.sub_add_cancel hgt.le] at hboth
      · cases hsplit
        exact hdelivery
    · cases hfirst
      exact hdelivery
  · cases h
    exact ⟨0, Nat.zero_le _, Nat.zero_le _, rfl⟩

theorem finishClaim_ok (h : s.finishClaim f = .ok s') :
    ∃ flight s₁, s.inFlight = some flight ∧ s.Pays flight.claim.fee s₁ ∧
      s' = { s₁ with inFlight := none } := by
  unfold finishClaim at h
  cases hflight : s.inFlight with
  | none => simp [hflight] at h
  | some flight =>
    obtain ⟨sender, claim⟩ := flight
    simp only [hflight, bind_eq_ok] at h
    obtain ⟨s₁, hpaid, ⟨⟩⟩ := h
    refine ⟨_, s₁, rfl, ?_, rfl⟩
    cases claim with
    | claimMessageWithProof params => exact distributeFees_ok hpaid
    | claimMessageWithProofAndWithdrawLST params =>
      cases hpaid
      exact ⟨0, le_rfl, Nat.zero_le _, rfl⟩
    | claimMessage message feeRecipient => exact distributeFees_ok hpaid

end L1MessageService

end StatusNetwork.Messaging
