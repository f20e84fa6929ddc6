import StatusNetwork.Prover.Soundness

/-!
# Failed and deferred audits

An audit that returns an error leaves its receiver as it was, but for an insertion that passes all
checks except the one of its next free node: the state is written before that
(`audit_error_unchanged`). The Merkle proofs of a trace may also be collected as claims and verified
later; `deferred_iff` says that nothing else is accepted that way.
-/

namespace StatusNetwork.Prover

open VerifierState (audit nextFreeNode verifyInsertion)

variable {compress : Compress} {K V : Type} [WriterTo K] [WriterTo V] {v v' : VerifierState}

-- Audits that fail

/-- Tests of which each returns an error with the state `v`, Merkle checks among them, before the
audit accepts. Where `late` holds an error may come with another state. -/
inductive Checks (v : VerifierState) (late : Prop) : Except Panic Verdict → Prop
  | accept : Checks v late (.ok (none, w))
  | reject : Checks v late (.ok (some e, v))
  | late : late → Checks v late (.ok (some e, w))
  | test {c : Prop} [Decidable c] : (¬ c → Checks v late x) →
      Checks v late (if c then .ok (some e, v) else x)
  | verify {verified : Except Panic Bool} : Checks v late x →
      Checks v late (verified >>= fun b => if b = true then x else .ok (some e, v))
  | withRoot : (∀ r, found = .ok (some r) → Checks v late (next r)) →
      Checks v late (withRoot found e v next)

theorem audit_checks (v : VerifierState) (t : Trace K V) :
    Checks v (∃ u, t = .insertion u ∧ u.ChecksBeforeWrite compress v ∧
      v.nextFreeNode + 1 ≠ u.newNextFreeNode) (v.audit compress t) := by
  cases t with
  | insertion t =>
    refine .test fun hlocation => .test fun hroot => .test fun hpath => .test fun hpointers =>
      .test fun hkeys => ?_
    refine .withRoot fun root₁ h₁ => .withRoot fun root₂ h₂ => .withRoot fun root₃ h₃ =>
      .test fun hnew => ?_
    dsimp only
    split
    · rename_i hnext
      simp only [not_or, not_not, KoalaOctuplet.cmp_gt_iff, KoalaOctuplet.cmp_lt_iff] at *
      exact .late ⟨t, rfl, ⟨hlocation, hroot, hpath, hpointers, hkeys, root₁, h₁, root₂, h₂,
        hnew ▸ h₃⟩, hnext⟩
    · exact .accept
  | deletion t =>
    refine .test fun _ => .test fun _ => .test fun _ => .test fun _ => .test fun _ =>
      .test fun _ => ?_
    exact .withRoot fun _ _ => .withRoot fun _ _ => .withRoot fun _ _ => .test fun _ =>
      .test fun _ => .accept
  | update t =>
    refine .test fun _ => .test fun _ => ?_
    split
    · exact .reject
    · exact .verify (.withRoot fun _ _ => .test fun _ => .test fun _ => .accept)
  | readNonZero t =>
    refine .test fun _ => .test fun _ => ?_
    split
    · exact .reject
    · exact .verify (.test fun _ => .accept)
  | readZero t =>
    refine .test fun _ => .test fun _ => .test fun _ => .test fun _ => ?_
    exact .verify (.verify (.test fun _ => .accept))

theorem Checks.keeps {late : Prop} (hc : Checks v late x) (h : x = .ok (some e, v')) :
    late ∨ v' = v := by
  induction hc with
  | accept => cases h
  | reject =>
    cases h
    exact .inr rfl
  | late hlate => exact .inl hlate
  | test _ ih =>
    split at h
    · cases h
      exact .inr rfl
    · exact ih ‹_› h
  | verify _ ih =>
    obtain ⟨b, -, h⟩ := bind_eq_ok.mp h
    split at h
    · exact ih h
    · cases h
      exact .inr rfl
  | withRoot _ ih =>
    obtain ⟨found, hfound, h⟩ := bind_eq_ok.mp h
    cases found with
    | none =>
      cases h
      exact .inr rfl
    | some r => exact ih r hfound h

theorem verifyInsertion_late {t : InsertionTrace K V} (h : t.ChecksBeforeWrite compress v)
    (hn : v.nextFreeNode + 1 ≠ n) :
    v.verifyInsertion compress { t with newNextFreeNode := n } =
      .ok (some .inconsistentNextFreeNode,
        { v with subTreeRoot := t.newSubRoot, nextFreeNode := v.nextFreeNode + 1 }) := by
  obtain ⟨hlocation, hroot, hpath, ⟨hnext, hprev⟩, ⟨hlower, hupper⟩, root₁, h₁, root₂, h₂, h₃⟩ := h
  simp only [InsertionTrace.newOpening] at h₂
  rw [hpath] at h₃
  simp [verifyInsertion, hlocation, hroot, hpath, hnext, hprev, h₁, h₂, h₃, hn,
    KoalaOctuplet.cmp_gt_iff.mpr hlower, KoalaOctuplet.cmp_lt_iff.mpr hupper]

theorem next_ne (v : VerifierState) (root : KoalaOctuplet) :
    { v with subTreeRoot := root, nextFreeNode := v.nextFreeNode + 1 } ≠ v := by
  intro h
  have hnext : v.nextFreeNode + 1 = v.nextFreeNode := congrArg nextFreeNode h
  simp at hnext

/-- An insertion that passes the checks before the write has to claim the next free node that
follows. -/
theorem audit_error_unchanged (v : VerifierState) (t : Trace K V) :
    (∀ e v', v.audit compress t = .ok (some e, v') → v' = v) ↔
      ∀ u, t = .insertion u → u.ChecksBeforeWrite compress v →
        v.nextFreeNode + 1 = u.newNextFreeNode := by
  constructor
  · rintro h u rfl hchecks
    by_contra hn
    exact next_ne v _ (h _ _ (verifyInsertion_late hchecks hn))
  · intro h e v' herr
    obtain ⟨u, rfl, hchecks, hn⟩ | hv := (audit_checks v t).keeps herr
    · exact absurd (h u rfl hchecks) hn
    · exact hv

/-- The insertion of a key with a trace that has another next free node. -/
theorem exists_error_after_write :
    ∃ (v v' : VerifierState) (t : InsertionTrace FullBytes32 FullBytes32),
      v.verifyInsertion toyCompress t = .ok (some .inconsistentNextFreeNode, v') ∧
      v'.nextFreeNode = v.nextFreeNode + 1 ∧ v' ≠ v := by
  obtain ⟨tree, -, hr, hbt⟩ := exists_toyState
  have h := verifyInsertion_honest (hr.invariant toyCompress_neverZero) hbt
    (show (2 : Int64).toInt < 2 ^ treeDepth by decide) 7
  exact ⟨_, _, _, verifyInsertion_late (verifyInsertion_iff.mp h).1
    (show (3 : Int64) ≠ 7 by decide), rfl, next_ne _ _⟩

-- Audits that are deferred

structure ProvedClaim where
  proof : Proof
  root : KoalaOctuplet
  leaf : KoalaOctuplet
  deriving DecidableEq

def ProvedClaim.Verifies (compress : Compress) (c : ProvedClaim) : Prop :=
  verify compress c.proof c.leaf c.root = .ok true

section
variable (compress)

/-- The claims about one update of the tree, and the root it leads to. -/
def deferCheckUpdateRoot (proof : Proof) (root old new : KoalaOctuplet)
    (appendTo : List ProvedClaim) : Except Panic (List ProvedClaim × KoalaOctuplet) := do
  let newRoot ← recoverRoot compress proof new
  .ok (appendTo ++ [⟨proof, root, old⟩, ⟨proof, newRoot, new⟩], newRoot)

/-- `CheckAndLeaf` without its error. -/
def KVOpeningTuple.leaf (t : KVOpeningTuple K V) : KoalaOctuplet :=
  match t.checkAndLeaf compress with
  | .ok leaf => leaf
  | .error _ => 0

def InsertionTrace.deferMerkleChecks (t : InsertionTrace K V) (appendTo : List ProvedClaim) :
    Except Panic (List ProvedClaim) := do
  let (appendTo, currentRoot) ← deferCheckUpdateRoot compress t.proofMinus t.oldSubRoot
    (hash compress t.oldOpenMinus) (hash compress (t.oldOpenMinus.copyWithNext t.proofNew.path))
    appendTo
  let newLeaf : LeafOpening :=
    { prev := t.proofMinus.path, next := t.proofPlus.path, hKey := hash compress t.key
      hVal := hash compress t.val }
  let (appendTo, currentRoot) ← deferCheckUpdateRoot compress t.proofNew currentRoot emptyLeaf
    (hash compress newLeaf) appendTo
  let (appendTo, _) ← deferCheckUpdateRoot compress t.proofPlus currentRoot
    (hash compress t.oldOpenPlus) (hash compress (t.oldOpenPlus.copyWithPrev t.proofNew.path))
    appendTo
  .ok appendTo

def DeletionTrace.deferMerkleChecks (t : DeletionTrace K V) (appendTo : List ProvedClaim) :
    Except Panic (List ProvedClaim) := do
  let (appendTo, currentRoot) ← deferCheckUpdateRoot compress t.proofMinus t.oldSubRoot
    (hash compress t.oldOpenMinus) (hash compress (t.oldOpenMinus.copyWithNext t.proofPlus.path))
    appendTo
  let (appendTo, currentRoot) ← deferCheckUpdateRoot compress t.proofDeleted currentRoot
    (hash compress t.deletedOpen) emptyLeaf appendTo
  let (appendTo, _) ← deferCheckUpdateRoot compress t.proofPlus currentRoot
    (hash compress t.oldOpenPlus) (hash compress (t.oldOpenPlus.copyWithPrev t.proofMinus.path))
    appendTo
  .ok appendTo

def UpdateTrace.deferMerkleChecks (t : UpdateTrace K V) (appendTo : List ProvedClaim) :
    Except Panic (List ProvedClaim) := do
  let newOpening := { t.oldOpening with hVal := hash compress t.newValue }
  let (appendTo, _) ← deferCheckUpdateRoot compress t.proof t.oldSubRoot (t.tuple.leaf compress)
    (hash compress newOpening) appendTo
  .ok appendTo

def ReadNonZeroTrace.deferMerkleChecks (t : ReadNonZeroTrace K V) (appendTo : List ProvedClaim) :
    List ProvedClaim :=
  appendTo ++ [⟨t.proof, t.subRoot, t.tuple.leaf compress⟩]

def ReadZeroTrace.deferMerkleChecks (t : ReadZeroTrace K) (appendTo : List ProvedClaim) :
    List ProvedClaim :=
  appendTo ++ [⟨t.proofMinus, t.subRoot, hash compress t.openingMinus⟩] ++
    [⟨t.proofPlus, t.subRoot, hash compress t.openingPlus⟩]

def Trace.deferMerkleChecks (t : Trace K V) (appendTo : List ProvedClaim) :
    Except Panic (List ProvedClaim) :=
  match t with
  | .insertion t => t.deferMerkleChecks compress appendTo
  | .deletion t => t.deferMerkleChecks compress appendTo
  | .update t => t.deferMerkleChecks compress appendTo
  | .readNonZero t => .ok (t.deferMerkleChecks compress appendTo)
  | .readZero t => .ok (t.deferMerkleChecks compress appendTo)

/-- What the audits check apart from the Merkle proofs. -/
def VerifierState.OtherChecks (v : VerifierState) : Trace K V → Prop
  | .insertion t => v.location = t.location ∧ v.subTreeRoot = t.oldSubRoot ∧
      t.proofNew.path = v.nextFreeNode ∧
      (t.oldOpenMinus.next = t.proofPlus.path ∧ t.oldOpenPlus.prev = t.proofMinus.path) ∧
      (t.oldOpenMinus.hKey < hash compress t.key ∧ hash compress t.key < t.oldOpenPlus.hKey) ∧
      v.nextFreeNode + 1 = t.newNextFreeNode
  | .deletion t => v.location = t.location ∧ v.subTreeRoot = t.oldSubRoot ∧
      hash compress t.deletedValue = t.deletedOpen.hVal ∧
      (t.oldOpenMinus.next = t.proofDeleted.path ∧ t.deletedOpen.prev = t.proofMinus.path) ∧
      (t.deletedOpen.next = t.proofPlus.path ∧ t.oldOpenPlus.prev = t.proofDeleted.path) ∧
      t.deletedOpen.hKey = hash compress t.key ∧ v.nextFreeNode = t.newNextFreeNode
  | .update t => v.location = t.location ∧ v.subTreeRoot = t.oldSubRoot ∧
      t.tuple.Checked compress ∧ v.nextFreeNode = t.newNextFreeNode
  | .readNonZero t => v.location = t.location ∧ v.subTreeRoot = t.subRoot ∧
      t.tuple.Checked compress ∧ v.nextFreeNode = t.nextFreeNode
  | .readZero t => v.location = t.location ∧ v.subTreeRoot = t.subRoot ∧
      (t.openingMinus.next = t.proofPlus.path ∧ t.openingPlus.prev = t.proofMinus.path) ∧
      (t.openingMinus.hKey < hash compress t.key ∧ hash compress t.key < t.openingPlus.hKey) ∧
      v.nextFreeNode = t.nextFreeNode

end

/-- The root a write claims. -/
def Trace.newSubRoot : Trace K V → Option KoalaOctuplet
  | .insertion t => some t.newSubRoot
  | .deletion t => some t.newSubRoot
  | .update t => some t.newSubRoot
  | .readNonZero _ | .readZero _ => none

theorem deferCheckUpdateRoot_ok :
    deferCheckUpdateRoot compress proof root old new appendTo = .ok r ↔
      ∃ newRoot, recoverRoot compress proof new = .ok newRoot ∧
        r = (appendTo ++ [⟨proof, root, old⟩, ⟨proof, newRoot, new⟩], newRoot) := by
  simp only [deferCheckUpdateRoot, bind_eq_ok, Except.ok.injEq, eq_comm (b := r)]

theorem leaf_eq {t : KVOpeningTuple K V} (h : t.Checked compress) :
    t.leaf compress = hash compress t.leafOpening := by
  rw [KVOpeningTuple.leaf, checkAndLeaf_ok h]

/-- The claims of a write of one leaf. -/
def writeClaims (proof : Proof) (root old newRoot new : KoalaOctuplet) : List ProvedClaim :=
  [⟨proof, root, old⟩, ⟨proof, newRoot, new⟩]

/-- The claims are verified iff the direct check finds the new root. -/
theorem writeClaims_verify :
    (recoverRoot compress proof new = .ok newRoot ∧
      ∀ c ∈ writeClaims proof root old newRoot new, c.Verifies compress) ↔
      updateCheckRoot compress proof root old new = .ok (some newRoot) := by
  simp only [writeClaims, updateCheckRoot_ok, ProvedClaim.Verifies, verify_ok, List.forall_mem_cons,
    List.not_mem_nil, false_implies, implies_true, and_true]
  tauto

section
variable {p₁ p₂ p₃ : Proof} {root o₁ n₁ o₂ n₂ o₃ n₃ : KoalaOctuplet}

variable (compress p₁ p₂ p₃ root o₁ n₁ o₂ n₂ o₃ n₃) in
/-- The claims of three writes one after another, as an insertion and a deletion make them. -/
def deferThree (appendTo : List ProvedClaim) : Except Panic (List ProvedClaim) := do
  let (appendTo, root) ← deferCheckUpdateRoot compress p₁ root o₁ n₁ appendTo
  let (appendTo, root) ← deferCheckUpdateRoot compress p₂ root o₂ n₂ appendTo
  let (appendTo, _) ← deferCheckUpdateRoot compress p₃ root o₃ n₃ appendTo
  .ok appendTo

theorem deferThree_ok :
    deferThree compress p₁ p₂ p₃ root o₁ n₁ o₂ n₂ o₃ n₃ appendTo = .ok (appendTo ++ claims) ↔
      ∃ root₁, recoverRoot compress p₁ n₁ = .ok root₁ ∧
      ∃ root₂, recoverRoot compress p₂ n₂ = .ok root₂ ∧
      ∃ root₃, recoverRoot compress p₃ n₃ = .ok root₃ ∧
      claims = writeClaims p₁ root o₁ root₁ n₁ ++ (writeClaims p₂ root₁ o₂ root₂ n₂ ++
        writeClaims p₃ root₂ o₃ root₃ n₃) := by
  simp only [deferThree, bind_eq_ok, deferCheckUpdateRoot_ok, writeClaims]
  constructor
  · rintro ⟨_, ⟨root₁, h₁, rfl⟩, _, ⟨root₂, h₂, rfl⟩, _, ⟨root₃, h₃, rfl⟩, h⟩
    refine ⟨root₁, h₁, root₂, h₂, root₃, h₃, ?_⟩
    simpa [eq_comm] using h
  · rintro ⟨root₁, h₁, root₂, h₂, root₃, h₃, rfl⟩
    exact ⟨_, ⟨root₁, h₁, rfl⟩, _, ⟨root₂, h₂, rfl⟩, _, ⟨root₃, h₃, rfl⟩, by simp⟩

theorem deferThree_iff :
    (∃ claims, deferThree compress p₁ p₂ p₃ root o₁ n₁ o₂ n₂ o₃ n₃ appendTo =
        .ok (appendTo ++ claims) ∧
      (∀ c ∈ claims, c.Verifies compress) ∧ claims.getLast?.map (·.root) = some final) ↔
      ∃ root₁, updateCheckRoot compress p₁ root o₁ n₁ = .ok (some root₁) ∧
      ∃ root₂, updateCheckRoot compress p₂ root₁ o₂ n₂ = .ok (some root₂) ∧
        updateCheckRoot compress p₃ root₂ o₃ n₃ = .ok (some final) := by
  simp only [deferThree_ok, ← writeClaims_verify]
  constructor
  · rintro ⟨claims, ⟨root₁, h₁, root₂, h₂, root₃, h₃, rfl⟩, hall, hlast⟩
    simp only [List.forall_mem_append] at hall
    obtain rfl : root₃ = final := by simpa [writeClaims] using hlast
    exact ⟨root₁, ⟨h₁, hall.1⟩, root₂, ⟨h₂, hall.2.1⟩, h₃, hall.2.2⟩
  · rintro ⟨root₁, ⟨h₁, hall₁⟩, root₂, ⟨h₂, hall₂⟩, h₃, hall₃⟩
    refine ⟨_, ⟨root₁, h₁, root₂, h₂, final, h₃, rfl⟩, ?_, by simp [writeClaims]⟩
    simp only [List.forall_mem_append]
    exact ⟨hall₁, hall₂, hall₃⟩

end

/-- The deferred claims are verified and lead to the root the trace has iff the trace is accepted at
once. -/
theorem deferred_iff (v : VerifierState) (t : Trace K V) (appendTo : List ProvedClaim)
    (h : v.OtherChecks compress t) :
    (∃ v', v.audit compress t = .ok (none, v')) ↔
      ∃ claims, t.deferMerkleChecks compress appendTo = .ok (appendTo ++ claims) ∧
        (∀ c ∈ claims, c.Verifies compress) ∧
        ∀ root ∈ t.newSubRoot, claims.getLast?.map (·.root) = some root := by
  cases t with
  | insertion t =>
    obtain ⟨hlocation, hroot, hpath, hpointers, hkeys, hnext⟩ := h
    have hdefer (appendTo) : t.deferMerkleChecks compress appendTo = deferThree compress
        t.proofMinus t.proofNew t.proofPlus t.oldSubRoot (hash compress t.oldOpenMinus)
        (hash compress (t.oldOpenMinus.copyWithNext v.nextFreeNode)) emptyLeaf
        (hash compress (t.newOpening compress)) (hash compress t.oldOpenPlus)
        (hash compress (t.oldOpenPlus.copyWithPrev t.proofNew.path)) appendTo := by
      rw [← hpath]
      rfl
    simp only [audit, Trace.deferMerkleChecks, hdefer, Trace.newSubRoot,
      Option.mem_some_iff, forall_eq', deferThree_iff]
    simp [verifyInsertion_iff, InsertionTrace.ChecksBeforeWrite, hlocation, hroot, hpath, hpointers,
      hkeys, hnext]
  | deletion t =>
    obtain ⟨hlocation, hroot, hvalue, hminus, hplus, hkey, hnext⟩ := h
    have hdefer (appendTo) : t.deferMerkleChecks compress appendTo = deferThree compress
        t.proofMinus t.proofDeleted t.proofPlus t.oldSubRoot (hash compress t.oldOpenMinus)
        (hash compress (t.oldOpenMinus.copyWithNext t.proofPlus.path))
        (hash compress t.deletedOpen) emptyLeaf (hash compress t.oldOpenPlus)
        (hash compress (t.oldOpenPlus.copyWithPrev t.proofMinus.path)) appendTo := rfl
    simp only [audit, Trace.deferMerkleChecks, hdefer, Trace.newSubRoot,
      Option.mem_some_iff, forall_eq', deferThree_iff]
    simp [verifyDeletion_iff, hlocation, hroot, hvalue, hminus, hplus, hkey, hnext]
  | update t =>
    obtain ⟨hlocation, hroot, hchecked, hnext⟩ := h
    have hleaf : t.tuple.leaf compress = hash compress t.oldOpening := leaf_eq hchecked
    simp only [audit, updateVerify_iff, Trace.deferMerkleChecks,
      UpdateTrace.deferMerkleChecks, hleaf, Trace.newSubRoot, Option.mem_some_iff, forall_eq',
      bind_eq_ok, deferCheckUpdateRoot_ok, hlocation, hroot, hchecked, hnext, true_and]
    constructor
    · rintro ⟨_, hold, hnew, -⟩
      refine ⟨_, ⟨_, ⟨t.newSubRoot, hnew, rfl⟩, rfl⟩, ?_, rfl⟩
      simpa [ProvedClaim.Verifies, verify_ok] using ⟨hold, hnew⟩
    · rintro ⟨claims, ⟨_, ⟨root, hnew, rfl⟩, hclaims⟩, hall, hlast⟩
      obtain rfl : _ = claims := List.append_cancel_left (Except.ok.inj hclaims)
      obtain rfl : root = t.newSubRoot := by simpa using hlast
      have hold := hall _ List.mem_cons_self
      exact ⟨_, verify_ok.mp hold, hnew, rfl⟩
  | readNonZero t =>
    obtain ⟨hlocation, hroot, hchecked, hnext⟩ := h
    have hleaf : t.tuple.leaf compress = hash compress t.leafOpening := leaf_eq hchecked
    simp [audit, readNonZeroVerify_iff, Trace.deferMerkleChecks,
      ReadNonZeroTrace.deferMerkleChecks, hleaf, hlocation, hroot, hchecked, hnext,
      Trace.newSubRoot, ProvedClaim.Verifies, verify_ok]
  | readZero t =>
    obtain ⟨hlocation, hroot, hpointers, hkeys, hnext⟩ := h
    simp [audit, readZeroVerify_iff, Trace.deferMerkleChecks,
      ReadZeroTrace.deferMerkleChecks, hlocation, hroot, hpointers, hkeys, hnext,
      Trace.newSubRoot, ProvedClaim.Verifies, verify_ok]

/-- The insertion of a key to the empty accumulator. -/
theorem deferred_iff_insert :
    ∃ (v : VerifierState) (t : Trace FullBytes32 FullBytes32) (claims : List ProvedClaim),
      v.OtherChecks toyCompress t ∧ t.deferMerkleChecks toyCompress [] = .ok claims ∧
      ∀ c ∈ claims, c.Verifies toyCompress := by
  obtain ⟨tree, -, hr, hbt⟩ := exists_toyState
  have h := verifyInsertion_honest (hr.invariant toyCompress_neverZero) hbt
    (show (2 : Int64).toInt < 2 ^ treeDepth by decide) 7
  obtain ⟨⟨hlocation, hroot, hpath, hpointers, hkeys, -⟩, hnext, -⟩ := verifyInsertion_iff.mp h
  have hother : (toyState tree).verifierState.OtherChecks toyCompress
      (.insertion (insertionTrace toyCompress (toyState tree) 5 7 0 1 toyHead toyTail)) :=
    ⟨hlocation, hroot, hpath, hpointers, hkeys, hnext⟩
  obtain ⟨claims, hclaims, hall, -⟩ := (deferred_iff _ _ [] hother).mp ⟨_, h⟩
  exact ⟨_, _, claims, hother, hclaims, hall⟩

end StatusNetwork.Prover
