import StatusNetwork.Prover.AccumulatorSteps

/-!
# Completeness of the accumulator

The verifier that starts from the snapshot taken before a call accepts the trace
of the call and ends in the snapshot taken after it.
-/

namespace StatusNetwork.Prover

open KVOpeningTuple (copyWithNext copyWithPrev)

@[simp] theorem withRoot_some (root : KoalaOctuplet) (e : VerifyError) (v : VerifierState)
    (next : KoalaOctuplet → Except Panic Verdict) :
    withRoot (.ok (some root)) e v next = next root := rfl

variable {compress : Compress} {K V : Type} [WriterTo K] [WriterTo V] {p p' : ProverState K V}
  {t : KVOpeningTuple K V} {order order' : List Int64}

section
variable (hi : Invariant compress p)
include hi

theorem Invariant.snapshot : p.verifierState =
    { location := p.location, nextFreeNode := p.nextFreeNode
      subTreeRoot := rootOf compress p.data } := by
  rw [ProverState.verifierState, hi.committed.root]

theorem Invariant.snapshot_root : p.verifierState.subTreeRoot = rootOf compress p.data :=
  hi.committed.root

theorem Invariant.leafAt_live (h : p.data.lookup i = some t) :
    leafAt compress p.data (index i) = hash compress t.leafOpening :=
  leafAt_of_lookup (hi.bound h).1 h

theorem verifyInsertion_honest (hbt : Between compress p key a b tm tp)
    (hroom : p.nextFreeNode.toInt < 2 ^ treeDepth) (val : V) :
    p.verifierState.verifyInsertion compress (insertionTrace compress p key val a b tm tp) =
      .ok (none, { location := p.location, nextFreeNode := p.nextFreeNode + 1
                   subTreeRoot := rootOf compress
                     (afterInsert compress p key val a b tm tp) }) := by
  have hn := nextFreeNode_inTree hi hroom
  have hna := ne_nextFreeNode hi hbt.minus
  have hnb := ne_nextFreeNode hi hbt.plus
  -- the other two leaves are untouched until their turn
  have hmid : leafAt compress (p.data.insert a (tm.copyWithNext p.nextFreeNode))
      (index p.nextFreeNode) = emptyLeaf := by
    apply leafAt_of_absent hn.1
    rw [Finmap.lookup_insert_of_ne _ hna.symm]
    exact hi.fresh
  have hplus : leafAt compress ((p.data.insert a (tm.copyWithNext p.nextFreeNode)).insert
      p.nextFreeNode (insertedTuple compress key val a b)) (index b) =
        hash compress tp.leafOpening := by
    apply leafAt_of_lookup (hi.inTree hbt.plus).1
    rw [Finmap.lookup_insert_of_ne _ hnb, Finmap.lookup_insert_of_ne _ hbt.ne.symm]
    exact hbt.plus
  have h₁ := updateCheckRoot_insert (hi.inTree hbt.minus) (tm.copyWithNext p.nextFreeNode)
    (hi.leafAt_live hbt.minus)
  have h₂ := updateCheckRoot_insert hn (insertedTuple compress key val a b) hmid
  have h₃ := updateCheckRoot_insert (hi.inTree hbt.plus) (tp.copyWithPrev p.nextFreeNode) hplus
  simp only [copyWithNext, copyWithPrev, insertedTuple] at h₁ h₂ h₃
  simp only [VerifierState.verifyInsertion, insertionTrace, hi.snapshot, hbt.next, hbt.prev,
    KoalaOctuplet.cmp_gt_iff.mpr hbt.lower, KoalaOctuplet.cmp_lt_iff.mpr hbt.upper, proofAt_path,
    ne_eq, not_true_eq_false, or_self, if_false, copyWithNext, insertedTuple,
    h₁, h₂, h₃, withRoot_some]
  simp [afterInsert, insertedData, insertedTuple, copyWithNext, copyWithPrev]

theorem verifyDeletion_honest (har : Around p.data i t a b tm tp)
    (hkey : t.leafOpening.hKey = hash compress key) (h0 : i ≠ 0) (h1 : i ≠ 1) :
    p.verifierState.verifyDeletion compress (deletionTrace compress p key i t a b tm tp) =
      .ok (none, { location := p.location, nextFreeNode := p.nextFreeNode
                   subTreeRoot := rootOf compress (deletedData p.data a i b tm tp) }) := by
  have hval := (hi.consistent har.live h0 h1).2
  have hmid : leafAt compress (p.data.insert a (tm.copyWithNext b)) (index i) =
      hash compress t.leafOpening := by
    apply leafAt_of_lookup (hi.inTree har.live).1
    rw [Finmap.lookup_insert_of_ne _ har.minus_ne.symm]
    exact har.live
  have hplus : leafAt compress ((p.data.insert a (tm.copyWithNext b)).erase i) (index b) =
      hash compress tp.leafOpening := by
    apply leafAt_of_lookup (hi.inTree har.plus).1
    rw [Finmap.lookup_erase_ne har.plus_ne, Finmap.lookup_insert_of_ne _ har.ne.symm]
    exact har.plus
  have h₁ := updateCheckRoot_insert (hi.inTree har.minus) (tm.copyWithNext b)
    (hi.leafAt_live har.minus)
  have h₂ := updateCheckRoot_erase (hi.inTree har.live) hmid
  have h₃ := updateCheckRoot_insert (hi.inTree har.plus) (tp.copyWithPrev a) hplus
  simp only [copyWithNext, copyWithPrev] at h₁ h₂ h₃
  simp only [VerifierState.verifyDeletion, deletionTrace, hi.snapshot, hval, har.next, har.prev,
    har.toMinus, har.toPlus, hkey, proofAt_path, ne_eq, not_true_eq_false, or_self, if_false,
    copyWithNext, h₁, h₂, h₃, withRoot_some]
  simp [deletedData, copyWithNext, copyWithPrev]

theorem updateVerify_honest (ht : p.data.lookup i = some t) (newVal : V) :
    p.verifierState.updateVerify compress (updateTrace compress p i t newVal) =
      .ok (none, { location := p.location, nextFreeNode := p.nextFreeNode
                   subTreeRoot :=
                    rootOf compress (p.data.insert i (updatedTuple compress t newVal)) }) := by
  have hleaf := checkAndLeaf_ok (hi.checked ht)
  have hv := verify_proofAt compress p.data (hi.inTree ht)
  rw [hi.leafAt_live ht] at hv
  have hw := updateCheckRoot_insert (hi.inTree ht) (updatedTuple compress t newVal)
    (hi.leafAt_live ht)
  simp only [updatedTuple] at hw
  simp only [VerifierState.updateVerify, updateTrace, hi.snapshot, hleaf, hv, hw, updatedTuple,
    ne_eq, not_true_eq_false, if_false, if_true, ok_bind, withRoot_some]

theorem readNonZeroVerify_honest (ht : p.data.lookup i = some t) :
    p.verifierState.readNonZeroVerify compress (readNonZeroTrace compress p i t) =
      .ok (none, p.verifierState) := by
  have hleaf := checkAndLeaf_ok (hi.checked ht)
  have hv := verify_proofAt compress p.data (hi.inTree ht)
  rw [hi.leafAt_live ht] at hv
  simp only [VerifierState.readNonZeroVerify, readNonZeroTrace, hi.snapshot, hleaf, hv,
    ne_eq, not_true_eq_false, if_false, if_true, ok_bind]

theorem readZeroVerify_honest (hbt : Between compress p key a b tm tp) :
    p.verifierState.readZeroVerify compress (readZeroTrace compress p key a b tm tp) =
      .ok (none, p.verifierState) := by
  have hm := verify_proofAt compress p.data (hi.inTree hbt.minus)
  have hp := verify_proofAt compress p.data (hi.inTree hbt.plus)
  rw [hi.leafAt_live hbt.minus] at hm
  rw [hi.leafAt_live hbt.plus] at hp
  simp only [VerifierState.readZeroVerify, readZeroTrace, hi.snapshot, hbt.next, hbt.prev,
    KoalaOctuplet.cmp_gt_iff.mpr hbt.lower, KoalaOctuplet.cmp_lt_iff.mpr hbt.upper, proofAt_path,
    ne_eq, not_true_eq_false, or_self, if_false, if_true, hm, hp, ok_bind]

end

theorem audit_call {t : Trace K V} (hz : NeverZero compress) (hi : Invariant compress p)
    (ho : p.ListsAllKeys order) (ho' : p.ListsAllKeys order')
    (h : p.call compress order order' c = .ok (t, p')) :
    p.verifierState.audit compress t = .ok (none, p'.verifierState) := by
  have hcalled := call_called hz hi ho ho' h
  rw [(hcalled.invariant hi).snapshot]
  cases hcalled with
  | insert hbt hroom => exact verifyInsertion_honest hi hbt hroom _
  | update ht => exact updateVerify_honest hi ht _
  | delete har h0 h1 hkey => exact verifyDeletion_honest hi har hkey h0 h1
  | readNonZero ht =>
    rw [← hi.snapshot]
    exact readNonZeroVerify_honest hi ht
  | readZero hbt =>
    rw [← hi.snapshot]
    exact readZeroVerify_honest hi hbt

section
variable [Inhabited K] [Inhabited V]

theorem accumulator_complete {t : Trace K V} (hz : NeverZero compress) (hr : Reachable compress p)
    (ho : p.ListsAllKeys order) (ho' : p.ListsAllKeys order')
    (h : p.call compress order order' c = .ok (t, p')) :
    p.verifierState.audit compress t = .ok (none, p'.verifierState) :=
  audit_call hz (hr.invariant hz) ho ho' h

omit [WriterTo K] [WriterTo V] in
theorem initialData_listsAllKeys (h : p.data = initialData K V) : p.ListsAllKeys [0, 1] := by
  refine ⟨by decide, fun i => ?_⟩
  rw [h, initialData]
  simp [Finmap.notMem_empty, or_comm]

end

theorem absent_initialData :
    Absent toyCompress (initialData FullBytes32 FullBytes32) (5 : FullBytes32) := by
  intro i t ht
  rcases initialData_cases ht with ⟨-, rfl⟩ | ⟨-, rfl⟩
  all_goals
    decide +kernel

theorem exists_toyInsertion :
    ∃ (p p' : ProverState FullBytes32 FullBytes32) (t : Trace FullBytes32 FullBytes32),
      initializeProverState toyCompress FullBytes32 FullBytes32 "0x" = .ok p ∧
      p.ListsAllKeys [0, 1] ∧ p.call toyCompress [0, 1] [0, 1] (.insert 5 7) = .ok (t, p') := by
  have hz := toyCompress_neverZero
  obtain ⟨tree, hinit, hi⟩ := initializeProverState_spec FullBytes32 FullBytes32 hz "0x"
  have ho := initialData_listsAllKeys
    (p := ⟨"0x", 2, tree, initialData FullBytes32 FullBytes32⟩) rfl
  obtain ⟨t, p', hcall⟩ := call_returns (c := .insert 5 7) hz hi ho ho
    ⟨absent_initialData, show (2 : Int64).toInt < 2 ^ treeDepth by decide⟩
  exact ⟨_, p', t, hinit, ho, hcall⟩

theorem accumulator_complete_insert :
    ∃ (p p' : ProverState FullBytes32 FullBytes32) (t : Trace FullBytes32 FullBytes32),
      Reachable toyCompress p ∧
      p.call toyCompress [0, 1] [0, 1] (.insert 5 7) = .ok (t, p') ∧
      p.verifierState.audit toyCompress t = .ok (none, p'.verifierState) := by
  obtain ⟨p, p', t, hinit, ho, hcall⟩ := exists_toyInsertion
  exact ⟨p, p', t, .init hinit, hcall,
    accumulator_complete toyCompress_neverZero (.init hinit) ho ho hcall⟩

end StatusNetwork.Prover
