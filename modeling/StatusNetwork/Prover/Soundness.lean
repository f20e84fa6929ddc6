import StatusNetwork.Prover.Binding

/-!
# Soundness of the accumulator

For any trace, not only those of the prover: what the verifier's acceptance says
about the state behind its snapshot. A trace is audited against a state whose
strings, with those the audit itself hashes, have no collision.
-/

namespace StatusNetwork.Prover

open Finmap (lookup_erase lookup_erase_ne lookup_insert lookup_insert_of_ne)

variable {compress : Compress} {K V : Type} [WriterTo K] [WriterTo V] {p : ProverState K V}
  {v v' : VerifierState} {order order' : List Int64}

-- The strings of an audit

/-- The strings of an audit that hashes `messages` and recovers these roots. -/
def auditStrings (compress : Compress) (messages : List (List Element))
    (walks : List (Proof × KoalaOctuplet)) : Set (List Element) :=
  { s | s ∈ messages ∨ ∃ w ∈ walks, s ∈ walkStrings compress w.1 w.2 }

/-- The leaf `VerifyInsertion` inserts. -/
def InsertionTrace.newOpening (compress : Compress) (t : InsertionTrace K V) : LeafOpening :=
  { prev := t.proofMinus.path, next := t.proofPlus.path
    hKey := hash compress t.key, hVal := hash compress t.val }

def InsertionTrace.strings (compress : Compress) (t : InsertionTrace K V) : Set (List Element) :=
  let newMinus := t.oldOpenMinus.copyWithNext t.proofNew.path
  let newPlus := t.oldOpenPlus.copyWithPrev t.proofNew.path
  auditStrings compress
    [elements t.key, elements t.val, elements t.oldOpenMinus, elements newMinus,
      elements (t.newOpening compress), elements t.oldOpenPlus, elements newPlus]
    [(t.proofMinus, hash compress t.oldOpenMinus), (t.proofMinus, hash compress newMinus),
      (t.proofNew, emptyLeaf), (t.proofNew, hash compress (t.newOpening compress)),
      (t.proofPlus, hash compress t.oldOpenPlus), (t.proofPlus, hash compress newPlus)]

def DeletionTrace.strings (compress : Compress) (t : DeletionTrace K V) : Set (List Element) :=
  let newMinus := t.oldOpenMinus.copyWithNext t.proofPlus.path
  let newPlus := t.oldOpenPlus.copyWithPrev t.proofMinus.path
  auditStrings compress
    [elements t.key, elements t.deletedValue, elements t.oldOpenMinus, elements newMinus,
      elements t.deletedOpen, elements t.oldOpenPlus, elements newPlus]
    [(t.proofMinus, hash compress t.oldOpenMinus), (t.proofMinus, hash compress newMinus),
      (t.proofDeleted, hash compress t.deletedOpen), (t.proofDeleted, emptyLeaf),
      (t.proofPlus, hash compress t.oldOpenPlus), (t.proofPlus, hash compress newPlus)]

def UpdateTrace.newOpening (compress : Compress) (t : UpdateTrace K V) : LeafOpening :=
  { t.oldOpening with hVal := hash compress t.newValue }

def UpdateTrace.strings (compress : Compress) (t : UpdateTrace K V) : Set (List Element) :=
  auditStrings compress
    [elements t.key, elements t.oldValue, elements t.newValue, elements t.oldOpening,
      elements (t.newOpening compress)]
    [(t.proof, hash compress t.oldOpening), (t.proof, hash compress (t.newOpening compress))]

def ReadNonZeroTrace.strings (compress : Compress) (t : ReadNonZeroTrace K V) :
    Set (List Element) :=
  auditStrings compress [elements t.key, elements t.value, elements t.leafOpening]
    [(t.proof, hash compress t.leafOpening)]

def ReadZeroTrace.strings (compress : Compress) (t : ReadZeroTrace K) : Set (List Element) :=
  auditStrings compress [elements t.key, elements t.openingMinus, elements t.openingPlus]
    [(t.proofMinus, hash compress t.openingMinus), (t.proofPlus, hash compress t.openingPlus)]

-- What a state holds

def ProverState.Holds (p : ProverState K V) (key : K) (value : V) : Prop :=
  ∃ i t, p.data.lookup i = some t ∧ ¬ t.leafOpening.headOrTail ∧ t.key = key ∧ t.value = value

def ProverState.Lacks (p : ProverState K V) (key : K) : Prop := ∀ value, ¬ p.Holds key value

theorem Invariant.inner (hi : Invariant compress p) (ht : p.data.lookup i = some t)
    (hn : ¬ t.leafOpening.headOrTail) :
    t.leafOpening.hKey = hash compress t.key ∧ t.leafOpening.hVal = hash compress t.value :=
  (hi.checked ht).resolve_left hn

theorem Invariant.end_opening (hi : Invariant compress p) (hl : p.data.lookup i = some tuple)
    (hends : i = 0 ∨ i = 1) {t : KVOpeningTuple K V} (ho : t.leafOpening = tuple.leafOpening) :
    t.Checked compress ∧ recoverRoot compress (proofAt compress p.data i)
      (hash compress t.leafOpening) = .ok p.subTreeRoot := by
  rw [KVOpeningTuple.Checked, ho]
  exact ⟨.inl ((hi.headOrTail_iff hl).mpr hends),
    (recoverRoot_old (hi.inTree hl) (hi.leafAt_live hl)).trans (congrArg _ hi.snapshot_root.symm)⟩

theorem Absent.lacks (hi : Invariant compress p) (h : Absent compress p.data key) :
    p.Lacks key := by
  rintro value ⟨i, t, ht, hn, rfl, -⟩
  exact h i t ht (hi.inner ht hn).1

-- What an audit that returns no error has checked

section
variable [Decidable c] {w : VerifierState} {y : Except Panic Verdict}

theorem reject_iff :
    (if c then .ok (some e, w) else y) = .ok (none, v') ↔ ¬ c ∧ y = .ok (none, v') := by
  by_cases h : c <;> simp [h]

theorem verify_iff :
    (x >>= fun b => if b = true then y else .ok (some e, w)) = .ok (none, v') ↔
      x = .ok true ∧ y = .ok (none, v') := by
  cases x with
  | error e => simp
  | ok b => cases b <;> simp

theorem checkAndLeaf_match_iff {t : KVOpeningTuple K V}
    {next : KoalaOctuplet → Except Panic Verdict} :
    (match t.checkAndLeaf compress with
      | .error e => Except.ok (some e, w)
      | .ok leaf => next leaf) = .ok (none, v') ↔
      t.Checked compress ∧ next (hash compress t.leafOpening) = .ok (none, v') := by
  cases h : t.checkAndLeaf compress with
  | error e =>
    have hno : ¬ t.Checked compress := fun hc => by simp [checkAndLeaf_ok hc] at h
    simp [hno]
  | ok leaf =>
    obtain ⟨hc, rfl⟩ := checkAndLeaf_iff.mp h
    simp [hc]

theorem withRoot_iff :
    withRoot found e w next = .ok (none, v') ↔
      ∃ root, found = .ok (some root) ∧ next root = .ok (none, v') := by
  cases found with
  | error e => simp [withRoot]
  | ok r => cases r <;> simp [withRoot]

end

theorem readZeroVerify_iff {t : ReadZeroTrace K} :
    v.readZeroVerify compress t = .ok (none, v') ↔
      v.location = t.location ∧ v.subTreeRoot = t.subRoot ∧
      (t.openingMinus.next = t.proofPlus.path ∧ t.openingPlus.prev = t.proofMinus.path) ∧
      (t.openingMinus.hKey < hash compress t.key ∧ hash compress t.key < t.openingPlus.hKey) ∧
      recoverRoot compress t.proofMinus (hash compress t.openingMinus) = .ok t.subRoot ∧
      recoverRoot compress t.proofPlus (hash compress t.openingPlus) = .ok t.subRoot ∧
      v.nextFreeNode = t.nextFreeNode ∧ v' = v := by
  simp only [VerifierState.readZeroVerify, reject_iff, verify_iff, verify_ok, not_or, not_not,
    KoalaOctuplet.cmp_gt_iff, KoalaOctuplet.cmp_lt_iff, ne_eq, Except.ok.injEq, Prod.mk.injEq,
    true_and, eq_comm (a := v)]

variable (compress) in
/-- All that is checked of an insertion before the state is written. -/
def InsertionTrace.ChecksBeforeWrite (t : InsertionTrace K V) (v : VerifierState) : Prop :=
  v.location = t.location ∧ v.subTreeRoot = t.oldSubRoot ∧ t.proofNew.path = v.nextFreeNode ∧
  (t.oldOpenMinus.next = t.proofPlus.path ∧ t.oldOpenPlus.prev = t.proofMinus.path) ∧
  (t.oldOpenMinus.hKey < hash compress t.key ∧ hash compress t.key < t.oldOpenPlus.hKey) ∧
  ∃ root₁, updateCheckRoot compress t.proofMinus t.oldSubRoot (hash compress t.oldOpenMinus)
      (hash compress (t.oldOpenMinus.copyWithNext v.nextFreeNode)) = .ok (some root₁) ∧
  ∃ root₂, updateCheckRoot compress t.proofNew root₁ emptyLeaf
      (hash compress (t.newOpening compress)) = .ok (some root₂) ∧
    updateCheckRoot compress t.proofPlus root₂ (hash compress t.oldOpenPlus)
      (hash compress (t.oldOpenPlus.copyWithPrev t.proofNew.path)) = .ok (some t.newSubRoot)

theorem verifyInsertion_iff {t : InsertionTrace K V} :
    v.verifyInsertion compress t = .ok (none, v') ↔ t.ChecksBeforeWrite compress v ∧
      v.nextFreeNode + 1 = t.newNextFreeNode ∧
      v' = { v with subTreeRoot := t.newSubRoot, nextFreeNode := v.nextFreeNode + 1 } := by
  simp only [VerifierState.verifyInsertion, reject_iff, withRoot_iff, not_or, not_not,
    KoalaOctuplet.cmp_gt_iff, KoalaOctuplet.cmp_lt_iff, ne_eq, Except.ok.injEq, Prod.mk.injEq,
    true_and, InsertionTrace.ChecksBeforeWrite, InsertionTrace.newOpening, eq_comm (b := v')]
  constructor
  · rintro ⟨hlocation, hroot, hpath, hp, hk, root₁, h₁, root₂, h₂, _, h₃, rfl, h⟩
    exact ⟨⟨hlocation, hroot, hpath, hp, hk, root₁, h₁, root₂, h₂, h₃⟩, h⟩
  · rintro ⟨⟨hlocation, hroot, hpath, hp, hk, root₁, h₁, root₂, h₂, h₃⟩, h⟩
    exact ⟨hlocation, hroot, hpath, hp, hk, root₁, h₁, root₂, h₂, _, h₃, rfl, h⟩

theorem verifyDeletion_iff {t : DeletionTrace K V} :
    v.verifyDeletion compress t = .ok (none, v') ↔
      v.location = t.location ∧ v.subTreeRoot = t.oldSubRoot ∧
      hash compress t.deletedValue = t.deletedOpen.hVal ∧
      (t.oldOpenMinus.next = t.proofDeleted.path ∧ t.deletedOpen.prev = t.proofMinus.path) ∧
      (t.deletedOpen.next = t.proofPlus.path ∧ t.oldOpenPlus.prev = t.proofDeleted.path) ∧
      t.deletedOpen.hKey = hash compress t.key ∧
      ∃ root₁, updateCheckRoot compress t.proofMinus t.oldSubRoot (hash compress t.oldOpenMinus)
          (hash compress (t.oldOpenMinus.copyWithNext t.proofPlus.path)) = .ok (some root₁) ∧
      ∃ root₂, updateCheckRoot compress t.proofDeleted root₁ (hash compress t.deletedOpen)
          emptyLeaf = .ok (some root₂) ∧
      ∃ root₃, updateCheckRoot compress t.proofPlus root₂ (hash compress t.oldOpenPlus)
          (hash compress (t.oldOpenPlus.copyWithPrev t.proofMinus.path)) = .ok (some root₃) ∧
      root₃ = t.newSubRoot ∧ v.nextFreeNode = t.newNextFreeNode ∧
      v' = { v with subTreeRoot := root₃ } := by
  simp only [VerifierState.verifyDeletion, reject_iff, withRoot_iff, not_or, not_not, ne_eq,
    Except.ok.injEq, Prod.mk.injEq, true_and]
  simp only [eq_comm]

/-- The pair of a trace with its opening, as `CheckAndLeaf` is given it. -/
def ReadNonZeroTrace.tuple (t : ReadNonZeroTrace K V) : KVOpeningTuple K V :=
  { key := t.key, value := t.value, leafOpening := t.leafOpening }

def UpdateTrace.tuple (t : UpdateTrace K V) : KVOpeningTuple K V :=
  { key := t.key, value := t.oldValue, leafOpening := t.oldOpening }

theorem readNonZeroVerify_iff {t : ReadNonZeroTrace K V} :
    v.readNonZeroVerify compress t = .ok (none, v') ↔
      v.location = t.location ∧ v.subTreeRoot = t.subRoot ∧ t.tuple.Checked compress ∧
      recoverRoot compress t.proof (hash compress t.leafOpening) = .ok t.subRoot ∧
      v.nextFreeNode = t.nextFreeNode ∧ v' = v := by
  simp only [VerifierState.readNonZeroVerify, reject_iff, not_not, ne_eq]
  refine and_congr_right' (and_congr_right' (checkAndLeaf_match_iff.trans (and_congr_right' ?_)))
  simp only [verify_iff, verify_ok, reject_iff, not_not, Except.ok.injEq, Prod.mk.injEq, true_and,
    eq_comm (a := v)]

theorem updateVerify_iff {t : UpdateTrace K V} :
    v.updateVerify compress t = .ok (none, v') ↔
      v.location = t.location ∧ v.subTreeRoot = t.oldSubRoot ∧ t.tuple.Checked compress ∧
      recoverRoot compress t.proof (hash compress t.oldOpening) = .ok t.oldSubRoot ∧
      recoverRoot compress t.proof (hash compress (t.newOpening compress)) = .ok t.newSubRoot ∧
      v.nextFreeNode = t.newNextFreeNode ∧ v' = { v with subTreeRoot := t.newSubRoot } := by
  simp only [VerifierState.updateVerify, reject_iff, not_not, ne_eq]
  refine and_congr_right' (and_congr_right' (checkAndLeaf_match_iff.trans (and_congr_right' ?_)))
  simp only [verify_iff, verify_ok, withRoot_iff, updateCheckRoot_ok, reject_iff, not_not,
    Except.ok.injEq, Prod.mk.injEq, true_and]
  constructor
  · rintro ⟨hold, root, ⟨-, hnew⟩, rfl, hn, rfl⟩
    exact ⟨hold, hnew, hn, rfl⟩
  · rintro ⟨hold, hnew, hn, rfl⟩
    exact ⟨hold, _, ⟨hold, hnew⟩, rfl, hn, rfl⟩

-- What an accepted trace says about the state

theorem auditStrings_subset (h : auditStrings compress messages walks ⊆ S) :
    messages.Forall (· ∈ S) ∧ walks.Forall fun w => walkStrings compress w.1 w.2 ⊆ S :=
  ⟨List.forall_iff_forall_mem.mpr fun _ hm => h (.inl hm),
    List.forall_iff_forall_mem.mpr fun _ hw _ hs => h (.inr ⟨_, hw, hs⟩)⟩

section
variable {S : Set (List Element)} (hz : NeverZero compress) (hi : Invariant compress p)
  (cf : CollisionFree compress S) (hp : p.strings compress ⊆ S)

theorem treeStrings_subset (hp : p.strings compress ⊆ S) : treeStrings compress p.data ⊆ S :=
  Set.Subset.trans Set.subset_union_left hp

include cf hp in
/-- Without collisions the hash of a key in the state determines the key. -/
theorem key_of_hash (ht : p.data.lookup i = some t) (hk : elements key ∈ S)
    (h : hash compress t.key = hash compress key) : t.key = key :=
  elements_injective (cf (hp (.inr ⟨i, t, ht, .inl rfl⟩)) hk h)

include cf hp in
theorem value_of_hash (ht : p.data.lookup i = some t) (hv : elements value ∈ S)
    (h : hash compress t.value = hash compress value) : t.value = value :=
  elements_injective (cf (hp (.inr ⟨i, t, ht, .inr rfl⟩)) hv h)

include hz hi cf hp

theorem readZero_between (ht : t.strings compress ⊆ S)
    (h : p.verifierState.readZeroVerify compress t = .ok (none, v')) :
    ∃ tm tp, Between compress p t.key t.proofMinus.path t.proofPlus.path tm tp := by
  obtain ⟨-, hroot, ⟨hnext, hprev⟩, ⟨hlow, hup⟩, hm, hpl, -, -⟩ := readZeroVerify_iff.mp h
  obtain ⟨hmsg, hwalk⟩ := auditStrings_subset ht
  obtain ⟨-, hsm, hsp⟩ := hmsg
  obtain ⟨hwm, hwp⟩ := hwalk
  rw [hi.snapshot_root] at hroot
  rw [← hroot] at hm hpl
  obtain ⟨-, -, tm, hlm, hom⟩ := opening_sound hz cf (treeStrings_subset hp) hsm hwm hm
  obtain ⟨-, -, tp, hlp, hop⟩ := opening_sound hz cf (treeStrings_subset hp) hsp hwp hpl
  refine ⟨tm, tp, hlm, hlp, ?_, ?_, ?_, ?_⟩
  · rw [hom]; exact hnext
  · rw [hop]; exact hprev
  · rw [hom]; exact hlow
  · rw [hop]; exact hup

theorem verifyInsertion_between (ht : t.strings compress ⊆ S)
    (h : p.verifierState.verifyInsertion compress t = .ok (none, v')) :
    ∃ tm tp, Between compress p t.key t.proofMinus.path t.proofPlus.path tm tp ∧
      InTree p.nextFreeNode ∧
      v' = { location := p.location, nextFreeNode := p.nextFreeNode + 1
             subTreeRoot := rootOf compress (afterInsert compress p t.key t.val
               t.proofMinus.path t.proofPlus.path tm tp) } := by
  obtain ⟨⟨-, hroot, hpath, ⟨hnext, hprev⟩, ⟨hlow, hup⟩, root₁, h₁, root₂, h₂, h₃⟩, -, rfl⟩ :=
    verifyInsertion_iff.mp h
  obtain ⟨hmsg, hwalk⟩ := auditStrings_subset ht
  obtain ⟨-, -, hsm, hsm', hsn, hsp, hsp'⟩ := hmsg
  obtain ⟨hwm, hwm', hwn, hwn', hwp, hwp'⟩ := hwalk
  rw [hi.snapshot_root] at hroot
  change t.proofNew.path = p.nextFreeNode at hpath
  rw [hpath] at hsm' hwm' hsp' hwp' h₃
  rw [← hroot] at h₁
  obtain ⟨tm, hlm, hom, hr₁, hs₁⟩ := rewrite_sound hz cf (treeStrings_subset hp)
    (f := (·.copyWithNext p.nextFreeNode)) (fun _ h => h ▸ rfl) hsm hwm hsm' hwm' h₁
  -- the same for the new leaf, whatever was there
  have hnew : t.newOpening compress =
      (insertedTuple compress t.key t.val t.proofMinus.path t.proofPlus.path).leafOpening := rfl
  rw [hnew] at hsn hwn' h₂
  rw [hr₁] at h₂
  obtain ⟨hinn, -, hr₂, hs₂⟩ := updateCheckRoot_sound_insert hz cf hs₁ (.inl rfl) hwn hsn hwn' h₂
  rw [hpath] at hinn hs₂ hr₂
  -- the plus leaf is neither of the two just written
  rw [hr₂] at h₃
  obtain ⟨tp, hlp, hop, hr₃, -⟩ := rewrite_sound hz cf hs₂ (f := (·.copyWithPrev p.nextFreeNode))
    (fun _ h => h ▸ rfl) hsp hwp hsp' hwp' h₃
  have hbn : t.proofPlus.path ≠ p.nextFreeNode := by
    intro he
    rw [he, lookup_insert] at hlp
    cases hlp
    rw [← hop] at hup
    exact lt_irrefl _ hup
  rw [lookup_insert_of_ne _ hbn] at hlp
  have hba : t.proofPlus.path ≠ t.proofMinus.path := by
    intro he
    rw [he, lookup_insert] at hlp
    cases hlp
    rw [← hop] at hup
    rw [← hom] at hlow
    exact lt_asymm hlow hup
  rw [lookup_insert_of_ne _ hba] at hlp
  refine ⟨tm, tp, ⟨hlm, hlp, ?_, ?_, ?_, ?_⟩, hinn, ?_⟩
  · rw [hom]; exact hnext
  · rw [hop]; exact hprev
  · rw [hom]; exact hlow
  · rw [hop]; exact hup
  · rw [hr₃]; rfl

theorem verifyDeletion_around {t : DeletionTrace K V} (ht : t.strings compress ⊆ S)
    (h : p.verifierState.verifyDeletion compress t = .ok (none, v')) :
    ∃ td tm tp, Around p.data t.proofDeleted.path td t.proofMinus.path t.proofPlus.path tm tp ∧
      ¬ td.leafOpening.headOrTail ∧ td.leafOpening.hKey = hash compress t.key ∧
      td.leafOpening.hVal = hash compress t.deletedValue ∧
      v' = { location := p.location, nextFreeNode := p.nextFreeNode
             subTreeRoot := rootOf compress (deletedData p.data t.proofMinus.path
               t.proofDeleted.path t.proofPlus.path tm tp) } := by
  obtain ⟨-, hroot, hval, ⟨hmd, hdm⟩, ⟨hdp, hpd⟩, hkey, root₁, h₁, root₂, h₂, root₃, h₃, -, -,
    rfl⟩ :=
    verifyDeletion_iff.mp h
  obtain ⟨hmsg, hwalk⟩ := auditStrings_subset ht
  obtain ⟨-, -, hsm, hsm', hsd, hsp, hsp'⟩ := hmsg
  obtain ⟨hwm, hwm', hwd, hwd', hwp, hwp'⟩ := hwalk
  rw [hi.snapshot_root] at hroot
  rw [← hroot] at h₁
  obtain ⟨tm, hlm, hom, hr₁, hs₁⟩ := rewrite_sound hz cf (treeStrings_subset hp)
    (f := (·.copyWithNext t.proofPlus.path)) (fun _ h => h ▸ rfl) hsm hwm hsm' hwm' h₁
  rw [hr₁] at h₂
  obtain ⟨-, -, td, hld, hod⟩ := opening_sound hz cf hs₁ hsd hwd (updateCheckRoot_ok.mp h₂).1
  obtain ⟨-, -, hr₂, hs₂⟩ := updateCheckRoot_sound_erase hz cf hs₁ (.inr ⟨_, hsd, rfl⟩) hwd hwd' h₂
  rw [hr₂] at h₃
  obtain ⟨tp, hlp, hop, hr₃, -⟩ := rewrite_sound hz cf hs₂ (f := (·.copyWithPrev t.proofMinus.path))
    (fun _ h => h ▸ rfl) hsp hwp hsp' hwp' h₃
  rw [← hom] at hmd
  rw [← hod] at hdm hdp hkey hval
  -- the deleted leaf is not the minus leaf: that one would be its own neighbour
  have hda : t.proofDeleted.path ≠ t.proofMinus.path := by
    intro he
    rw [he, lookup_insert] at hld
    cases hld
    rw [he] at hmd
    by_cases h1 : t.proofMinus.path = 1
    · have hprev := hi.sorted.prev_ne_tail (links_of_lookup hlm) (by rw [h1]; decide)
      exact hprev (hdm.trans h1)
    · exact hi.sorted.next_ne (links_of_lookup hlm) h1 hmd
  rw [lookup_insert_of_ne _ hda] at hld
  have hbd : t.proofPlus.path ≠ t.proofDeleted.path := by
    intro he
    rw [he, lookup_erase] at hlp
    cases hlp
  have h0 : t.proofDeleted.path ≠ 0 := by
    intro he
    obtain ⟨l, hl, hprev⟩ := hi.sorted.headLink
    rw [← he, links_of_lookup hld] at hl
    cases hl
    exact hda (he.trans (hprev.symm.trans hdm))
  have h1 : t.proofDeleted.path ≠ 1 := by
    intro he
    obtain ⟨l, hl, hnext⟩ := hi.sorted.tailLink
    rw [← he, links_of_lookup hld] at hl
    cases hl
    exact hbd (hdp.symm.trans (hnext.trans he.symm))
  obtain ⟨tm', tp', har⟩ := exists_around hi hld h0 h1
  rw [hdm, hdp] at har
  cases hlm.symm.trans har.minus
  rw [lookup_erase_ne hbd, lookup_insert_of_ne _ har.ne.symm] at hlp
  cases hlp.symm.trans har.plus
  have hinner : ¬ td.leafOpening.headOrTail := by
    rw [hi.headOrTail_iff hld, not_or]
    exact ⟨h0, h1⟩
  exact ⟨td, tm, tp, har, hinner, hkey, hval.symm, by rw [hr₃]; rfl⟩

omit hz in
/-- An opening of the state that passes `CheckAndLeaf` with a pair comes with the
pair of the state, unless it is the head or the tail. -/
theorem checked_tuple (hl : p.data.lookup i = some tuple) (ho : tuple.leafOpening = t.leafOpening)
    (hc : t.Checked compress) (hk : elements t.key ∈ S) (hv : elements t.value ∈ S) :
    t.leafOpening.headOrTail ∨ tuple = t := by
  by_cases hends : t.leafOpening.headOrTail
  · exact .inl hends
  · right
    obtain ⟨hck, hcv⟩ := hc.resolve_left hends
    rw [← ho] at hck hcv hends
    obtain ⟨hik, hiv⟩ := hi.inner hl hends
    have hkey := key_of_hash cf hp hl hk (hik.symm.trans hck)
    have hvalue := value_of_hash cf hp hl hv (hiv.symm.trans hcv)
    cases tuple
    cases t
    simp_all

theorem readNonZero_opens (ht : t.strings compress ⊆ S)
    (h : p.verifierState.readNonZeroVerify compress t = .ok (none, v')) :
    ∃ tuple, p.data.lookup t.proof.path = some tuple ∧ tuple.leafOpening = t.leafOpening ∧
      t.proof = proofAt compress p.data t.proof.path ∧
      (t.leafOpening.headOrTail ∨ tuple = t.tuple) := by
  obtain ⟨-, hroot, hcheck, hproof, -, -⟩ := readNonZeroVerify_iff.mp h
  obtain ⟨hmsg, hwalk⟩ := auditStrings_subset ht
  obtain ⟨hsk, hsv, hso⟩ := hmsg
  rw [hi.snapshot_root] at hroot
  rw [← hroot] at hproof
  obtain ⟨-, hpr, tuple, hl, ho⟩ := opening_sound hz cf (treeStrings_subset hp) hso hwalk hproof
  exact ⟨tuple, hl, ho, hpr, checked_tuple hi cf hp hl ho hcheck hsk hsv⟩

theorem updateVerify_opens (ht : t.strings compress ⊆ S)
    (h : p.verifierState.updateVerify compress t = .ok (none, v')) :
    ∃ tuple, p.data.lookup t.proof.path = some tuple ∧ tuple.leafOpening = t.oldOpening ∧
      t.proof = proofAt compress p.data t.proof.path ∧
      t.newSubRoot = rootOf compress (p.data.insert t.proof.path
        (updatedTuple compress tuple t.newValue)) ∧
      (t.oldOpening.headOrTail ∨ tuple = t.tuple) := by
  obtain ⟨-, hroot, hcheck, hproof, hnew, -, -⟩ := updateVerify_iff.mp h
  obtain ⟨hmsg, hwalk⟩ := auditStrings_subset ht
  obtain ⟨hsk, hsv, -, hso, -⟩ := hmsg
  rw [hi.snapshot_root] at hroot
  rw [← hroot] at hproof
  have hw : walkStrings compress t.proof (hash compress t.oldOpening) ⊆ S := hwalk.1
  obtain ⟨hin, hpr, tuple, hl, ho⟩ := opening_sound hz cf (treeStrings_subset hp) hso hw hproof
  refine ⟨tuple, hl, ho, hpr, ?_, checked_tuple hi cf hp hl ho hcheck hsk hsv⟩
  have hopen : t.newOpening compress = (updatedTuple compress tuple t.newValue).leafOpening := by
    rw [UpdateTrace.newOpening, ← ho]; rfl
  rw [hopen, hpr] at hnew
  exact (Except.ok.inj ((recoverRoot_insert hin _).symm.trans hnew)).symm

end

-- The strings of a state

theorem opening_mem (hs : treeStrings compress data ⊆ S) (h : data.lookup i = some t) :
    elements t.leafOpening ∈ S :=
  hs (.inl ⟨i, t, h, rfl⟩)

theorem walkStrings_live (hi : Invariant compress p) (h : p.data.lookup i = some t) :
    walkStrings compress (proofAt compress p.data i) (hash compress t.leafOpening) ⊆
      treeStrings compress p.data :=
  walkStrings_proofAt (hi.inTree h) (fun _ _ => rfl) (hi.leafAt_live h)

-- Soundness from every reachable state

section
variable [Inhabited K] [Inhabited V]

/-- Absence, insertion and deletion are sound: an accepted trace says what it
claims about the state, and the verifier ends where the prover's own operation
would. -/
theorem accumulator_write_sound (hz : NeverZero compress) (hr : Reachable compress p) :
    (∀ (t : ReadZeroTrace K) v', CollisionFree compress (p.strings compress ∪ t.strings compress) →
      p.verifierState.readZeroVerify compress t = .ok (none, v') → p.Lacks t.key) ∧
    (∀ (t : InsertionTrace K V) v',
      CollisionFree compress (p.strings compress ∪ t.strings compress) →
      p.verifierState.verifyInsertion compress t = .ok (none, v') →
      p.Lacks t.key ∧ ∀ order order', p.ListsAllKeys order → p.ListsAllKeys order' →
        ∃ t' p', p.insertAndProve compress order order' t.key t.val = .ok (t', p') ∧
          v' = p'.verifierState) ∧
    (∀ (t : DeletionTrace K V) v',
      CollisionFree compress (p.strings compress ∪ t.strings compress) →
      p.verifierState.verifyDeletion compress t = .ok (none, v') →
      p.Holds t.key t.deletedValue ∧ ∀ order, p.ListsAllKeys order →
        ∃ t' p', p.deleteAndProve compress order t.key = .ok (t', p') ∧ v' = p'.verifierState) := by
  have hi := hr.invariant hz
  refine ⟨?_, ?_, ?_⟩
  · intro t v' cf h
    obtain ⟨tm, tp, hbt⟩ := readZero_between hz hi cf Set.subset_union_left Set.subset_union_right h
    exact (hbt.absent hi).lacks hi
  · intro t v' cf h
    obtain ⟨tm, tp, hbt, hin, rfl⟩ :=
      verifyInsertion_between hz hi cf Set.subset_union_left Set.subset_union_right h
    refine ⟨(hbt.absent hi).lacks hi, fun order order' ho ho' => ?_⟩
    obtain ⟨tree', hc, hok⟩ := insertAndProve_spec hz hi ho ho' hbt hin.2 t.val
    exact ⟨_, _, hok, (invariant_afterInsert hi hbt hin.2 hc).snapshot.symm⟩
  · intro t v' cf h
    obtain ⟨td, tm, tp, har, hinner, hkey, hval, rfl⟩ :=
      verifyDeletion_around hz hi cf Set.subset_union_left Set.subset_union_right h
    obtain ⟨hk, hv⟩ := hi.inner har.live hinner
    refine ⟨⟨_, td, har.live, hinner, ?_, ?_⟩, fun order ho => ?_⟩
    · exact key_of_hash cf Set.subset_union_left har.live (.inr (.inl (by simp)))
        (hk.symm.trans hkey)
    · exact value_of_hash cf Set.subset_union_left har.live (.inr (.inl (by simp)))
        (hv.symm.trans hval)
    · obtain ⟨tree', hc, hok⟩ := deleteAndProve_spec hz hi ho har hkey
      have hends := (hi.headOrTail_iff har.live).not.mp hinner
      rw [not_or] at hends
      exact ⟨_, _, hok, (invariant_afterDelete hi har hends.1 hends.2 hc).snapshot.symm⟩

end

theorem exists_toyState : ∃ tree,
    initializeProverState toyCompress FullBytes32 FullBytes32 "0x" = .ok (toyState tree) ∧
    Reachable toyCompress (toyState tree) ∧
    Between toyCompress (toyState tree) 5 0 1 toyHead toyTail := by
  obtain ⟨tree, hinit, -⟩ :=
    initializeProverState_spec FullBytes32 FullBytes32 toyCompress_neverZero "0x"
  exact ⟨tree, hinit, .init hinit,
    ⟨initialData_zero, initialData_one, rfl, rfl, by decide +kernel, by decide +kernel⟩⟩

def Trace.strings (compress : Compress) : Trace K V → Set (List Element)
  | .readNonZero t => t.strings compress
  | .readZero t => t.strings compress
  | .insertion t => t.strings compress
  | .update t => t.strings compress
  | .deletion t => t.strings compress

/-- The audit of the trace hashes strings of the set and returns no error. -/
def ProverState.Passes (p : ProverState FullBytes32 FullBytes32)
    (t : Trace FullBytes32 FullBytes32) : Prop :=
  t.strings toyCompress ⊆ toySet ∧ (p.verifierState.audit toyCompress t).map Prod.fst = .ok none

theorem ProverState.Passes.accepted {p : ProverState FullBytes32 FullBytes32} (h : p.Passes t)
    (hp : p.strings toyCompress ⊆ toySet) :
    CollisionFree toyCompress (p.strings toyCompress ∪ t.strings toyCompress) ∧
      ∃ v, p.verifierState.audit toyCompress t = .ok (none, v) := by
  obtain ⟨⟨_, v⟩, hv, rfl⟩ := map_eq_ok.mp h.2
  exact ⟨toySet_collisionFree.mono (Set.union_subset hp h.1), v, hv⟩

instance : Decidable (auditStrings toyCompress messages walks ⊆ toySet) :=
  decidable_of_iff ((∀ s ∈ messages, s ∈ toySet) ∧ ∀ w ∈ walks,
      ∀ q ∈ Merkle.foldPairs (hashLR toyCompress) w.2 (index w.1.path) w.1.siblings,
        nodeString q ∈ toySet) <| by
    constructor
    · rintro h s (hs | ⟨w, hw, q, hq, rfl⟩)
      · exact h.1 s hs
      · exact h.2 w hw q hq
    · exact fun h => ⟨fun s hs => h (.inl hs), fun w hw q hq => h (.inr ⟨w, hw, q, hq, rfl⟩)⟩

instance (p : ProverState FullBytes32 FullBytes32) (t : Trace FullBytes32 FullBytes32) :
    Decidable (p.Passes t) :=
  have : Decidable (t.strings toyCompress ⊆ toySet) :=
    match t with
    | .readNonZero _ | .readZero _ | .insertion _ | .update _ | .deletion _ =>
      inferInstanceAs (Decidable (auditStrings _ _ _ ⊆ toySet))
  inferInstanceAs (Decidable (_ ∧ _))

/-- The head, opened with another pair. -/
def headTrace (t : ReadZeroTrace FullBytes32) : ReadNonZeroTrace FullBytes32 FullBytes32 :=
  { location := t.location, nextFreeNode := t.nextFreeNode, key := 5, value := 7
    subRoot := t.subRoot, leafOpening := t.openingMinus, proof := t.proofMinus }

instance (p : ProverState FullBytes32 FullBytes32) (order : List Int64) :
    Decidable (p.ListsAllKeys order) :=
  decidable_of_iff (order.Nodup ∧ order.toFinset = p.data.keys)
    (by simp [ProverState.ListsAllKeys, Finset.ext_iff, Finmap.mem_keys])

/-- The traces of the entry, from before its insertion to its deletion, and the state after
another entry has come and gone. -/
theorem exists_toyRun : ∃ (tree tree₁ : Tree) (t₀ : ReadZeroTrace FullBytes32)
    (t₁ : InsertionTrace FullBytes32 FullBytes32) (t₂ : DeletionTrace FullBytes32 FullBytes32)
    (t₃ : ReadNonZeroTrace FullBytes32 FullBytes32) (t₄ : UpdateTrace FullBytes32 FullBytes32)
    (q : ProverState FullBytes32 FullBytes32),
    Reachable toyCompress (toyState tree) ∧ Reachable toyCompress (toyState₁ tree₁) ∧
    Reachable toyCompress q ∧ q.data = (toyState₁ tree₁).data ∧ 3 < q.nextFreeNode ∧
    (toyState tree).Passes (.readZero t₀) ∧ (toyState tree).Passes (.readNonZero (headTrace t₀)) ∧
    (toyState tree).Passes (.insertion t₁) ∧ (toyState₁ tree₁).Passes (.deletion t₂) ∧
    (toyState₁ tree₁).Passes (.readNonZero t₃) ∧ (toyState₁ tree₁).Passes (.update t₄) ∧
    ¬ t₃.leafOpening.headOrTail ∧ ¬ t₄.oldOpening.headOrTail := by
  have hrun : (do
      let p ← initializeProverState toyCompress FullBytes32 FullBytes32 "0x"
      let t₀ ← p.readZeroAndProve toyCompress [0, 1] [0, 1] 5
      let (t₁, p₁) ← p.insertAndProve toyCompress [0, 1] [0, 1] 5 7
      let (t₂, _) ← p₁.deleteAndProve toyCompress [0, 1, 2] 5
      let t₃ ← p₁.readNonZeroAndProve toyCompress [0, 1, 2] 5
      let (t₄, _) ← p₁.updateAndProve toyCompress [0, 1, 2] 5 7
      let (_, p₂) ← p₁.insertAndProve toyCompress [0, 1, 2] [0, 1, 2] 9 8
      let (_, q) ← p₂.deleteAndProve toyCompress [0, 1, 2, 3] 9
      .ok (decide ((p₁.ListsAllKeys [0, 1, 2] ∧ p₂.ListsAllKeys [0, 1, 2, 3]) ∧
        q.data = p₁.data ∧ 3 < q.nextFreeNode ∧
        p.Passes (.readZero t₀) ∧ p.Passes (.readNonZero (headTrace t₀)) ∧
        p.Passes (.insertion t₁) ∧ p₁.Passes (.deletion t₂) ∧ p₁.Passes (.readNonZero t₃) ∧
        p₁.Passes (.update t₄) ∧ ¬ t₃.leafOpening.headOrTail ∧ ¬ t₄.oldOpening.headOrTail))) =
      Except.ok true := by decide +kernel
  obtain ⟨tree, hinit, hr, hbt⟩ := exists_toyState
  have ho : (toyState tree).ListsAllKeys [0, 1] := initialData_listsAllKeys rfl
  obtain ⟨tree₁, -, hins⟩ := insertAndProve_spec toyCompress_neverZero
    (hr.invariant toyCompress_neverZero) ho ho hbt
    (show (2 : Int64).toInt < 2 ^ treeDepth by decide) 7
  have hr₁ : Reachable toyCompress (toyState₁ tree₁) :=
    .call hr ho ho (by rw [ProverState.call, hins]; rfl)
  simp only [bind_eq_ok, hinit, Except.ok.injEq, decide_eq_true_eq] at hrun
  obtain ⟨_, rfl, t₀, -, ⟨t₁, p₁⟩, hins', ⟨t₂, _⟩, -, t₃, -, ⟨t₄, _⟩, -, ⟨_, p₂⟩, hins₂, ⟨_, q⟩,
    hdel, ⟨ho₁, ho₂⟩, hpasses⟩ := hrun
  cases hins.symm.trans hins'
  have hr₂ : Reachable toyCompress p₂ :=
    .call hr₁ ho₁ ho₁ (c := .insert 9 8) (bind_eq_ok.mpr ⟨_, hins₂, rfl⟩)
  have hq : Reachable toyCompress q :=
    .call hr₂ ho₂ ho₂ (c := .delete 9) (bind_eq_ok.mpr ⟨_, hdel, rfl⟩)
  exact ⟨tree, tree₁, t₀, _, t₂, t₃, t₄, q, hr, hr₁, hq, hpasses⟩

theorem accumulator_write_sound_toy :
    ∃ (p p₁ : ProverState FullBytes32 FullBytes32) (t₀ : ReadZeroTrace FullBytes32)
      (t₁ : InsertionTrace FullBytes32 FullBytes32) (t₂ : DeletionTrace FullBytes32 FullBytes32)
      (v v₁ v₂ : VerifierState), Reachable toyCompress p ∧ Reachable toyCompress p₁ ∧
      (p.verifierState.readZeroVerify toyCompress t₀ = .ok (none, v) ∧ p.Lacks t₀.key) ∧
      (p.verifierState.verifyInsertion toyCompress t₁ = .ok (none, v₁) ∧
        ∃ t' p', p.insertAndProve toyCompress [0, 1] [0, 1] t₁.key t₁.val = .ok (t', p') ∧
          v₁ = p'.verifierState) ∧
      (p₁.verifierState.verifyDeletion toyCompress t₂ = .ok (none, v₂) ∧
        p₁.Holds t₂.key t₂.deletedValue) := by
  have hz := toyCompress_neverZero
  obtain ⟨tree, tree₁, t₀, t₁, t₂, -, -, -, hr, hr₁, -, -, -, h₀, -, h₁, h₂, -⟩ := exists_toyRun
  obtain ⟨cf₀, v, h₀⟩ := h₀.accepted (toyState_strings tree)
  obtain ⟨cf₁, v₁, h₁⟩ := h₁.accepted (toyState_strings tree)
  obtain ⟨cf₂, v₂, h₂⟩ := h₂.accepted (toyState₁_strings tree₁)
  obtain ⟨hzero, hinsert, -⟩ := accumulator_write_sound hz hr
  obtain ⟨-, -, hdelete⟩ := accumulator_write_sound hz hr₁
  have ho : (toyState tree).ListsAllKeys [0, 1] := initialData_listsAllKeys rfl
  exact ⟨_, _, t₀, t₁, t₂, v, v₁, v₂, hr, hr₁, ⟨h₀, hzero _ _ cf₀ h₀⟩,
    ⟨h₁, (hinsert _ _ cf₁ h₁).2 _ _ ho ho⟩, h₂, (hdelete _ _ cf₂ h₂).1⟩

section
variable [Inhabited K] [Inhabited V]

/-- What a state holds is held by every state with the same root. -/
theorem root_binds {q : ProverState K V} (hz : NeverZero compress) (hp : Reachable compress p)
    (hq : Reachable compress q) (cf : CollisionFree compress S) (hsp : p.strings compress ⊆ S)
    (hsq : q.strings compress ⊆ S) (hroot : p.subTreeRoot = q.subTreeRoot)
    (h : p.Holds key value) : q.Holds key value := by
  obtain ⟨i, t, ht, hn, rfl, rfl⟩ := h
  have hi := hp.invariant hz
  have hi' := hq.invariant hz
  have hs := treeStrings_subset hsp
  -- the leaf of the pair opens in the other state too
  have hopen := recoverRoot_old (hi.inTree ht) (hi.leafAt_live ht)
  rw [hi.snapshot_root.symm.trans (hroot.trans hi'.snapshot_root)] at hopen
  obtain ⟨-, -, u, hu, hou⟩ := opening_sound hz cf (treeStrings_subset hsq) (opening_mem hs ht)
    ((walkStrings_live hi ht).trans hs) hopen
  obtain ⟨hk, hv⟩ := hi.inner ht hn
  rw [← hou] at hn hk hv
  obtain ⟨hk', hv'⟩ := hi'.inner hu hn
  exact ⟨_, u, hu, hn,
    key_of_hash cf hsq hu (hsp (.inr ⟨i, t, ht, .inl rfl⟩)) (hk'.symm.trans hk),
    value_of_hash cf hsq hu (hsp (.inr ⟨i, t, ht, .inr rfl⟩)) (hv'.symm.trans hv)⟩

/-- The deletion of a key that was just inserted gives the data back. -/
theorem root_binds_toy : ∃ p q : ProverState FullBytes32 FullBytes32, Reachable toyCompress p ∧
    Reachable toyCompress q ∧ p.nextFreeNode < q.nextFreeNode ∧ p.subTreeRoot = q.subTreeRoot ∧
    q.Holds 5 7 := by
  have hz := toyCompress_neverZero
  obtain ⟨-, tree, -, -, -, -, -, q, -, hr, hq, hdata, hnext, -⟩ := exists_toyRun
  have hs := toyState₁_strings tree
  have hsq : q.strings toyCompress ⊆ toySet := by
    rwa [ProverState.strings, ← hdata] at hs
  have hroot := (hdata ▸ (hr.invariant hz).snapshot_root).trans (hq.invariant hz).snapshot_root.symm
  exact ⟨_, q, hr, hq, hnext, hroot, root_binds hz hr hq toySet_collisionFree hs hsq hroot
    ⟨2, _, insertedData_new (by decide), by decide, rfl, rfl⟩⟩

/-- The trace opens the head or the tail of the state, with a pair of its own. -/
def ReadNonZeroTrace.OpensEnd (compress : Compress) (p : ProverState K V)
    (t : ReadNonZeroTrace K V) : Prop :=
  t.location = p.location ∧ t.subRoot = p.subTreeRoot ∧ t.nextFreeNode = p.nextFreeNode ∧
    ∃ i tuple, (i = 0 ∨ i = 1) ∧ p.data.lookup i = some tuple ∧
      t.leafOpening = tuple.leafOpening ∧ t.proof = proofAt compress p.data i

/-- The trace rewrites the value hash of the head or the tail. -/
def UpdateTrace.OpensEnd (compress : Compress) (p : ProverState K V) (t : UpdateTrace K V) : Prop :=
  t.location = p.location ∧ t.oldSubRoot = p.subTreeRoot ∧ t.newNextFreeNode = p.nextFreeNode ∧
    ∃ i tuple, (i = 0 ∨ i = 1) ∧ p.data.lookup i = some tuple ∧
      t.oldOpening = tuple.leafOpening ∧ t.proof = proofAt compress p.data i ∧
      t.newSubRoot = rootOf compress (p.data.insert i (updatedTuple compress tuple t.newValue))

/-- The state maps `t.key` to `t.oldValue`, and its root after `UpdateAndProve`
to `t.newValue` is `root`. -/
def UpdateTrace.UpdatesTo (compress : Compress) (p : ProverState K V) (t : UpdateTrace K V)
    (root : KoalaOctuplet) : Prop :=
  p.Holds t.key t.oldValue ∧ ∀ order, p.ListsAllKeys order →
    ∃ t' p', p.updateAndProve compress order t.key t.newValue = .ok (t', p') ∧
      p'.subTreeRoot = root

/-- Membership reads and updates are sound except for the openings of the head
and the tail, which are accepted with every pair. -/
theorem accumulator_read_update_sound_iff (hz : NeverZero compress) (hr : Reachable compress p) :
    (∀ t : ReadNonZeroTrace K V,
      CollisionFree compress (p.strings compress ∪ t.strings compress) →
      ((∀ v', p.verifierState.readNonZeroVerify compress t = .ok (none, v') →
          p.Holds t.key t.value) ↔
        (t.OpensEnd compress p → p.Holds t.key t.value))) ∧
    (∀ t : UpdateTrace K V, CollisionFree compress (p.strings compress ∪ t.strings compress) →
      ((∀ v', p.verifierState.updateVerify compress t = .ok (none, v') →
          t.UpdatesTo compress p v'.subTreeRoot) ↔
        (t.OpensEnd compress p → t.UpdatesTo compress p t.newSubRoot))) := by
  have hi := hr.invariant hz
  refine ⟨fun t cf => ⟨?_, ?_⟩, fun t cf => ⟨?_, ?_⟩⟩
  · rintro hsound ⟨hloc, hroot, hn, i, tuple, hends, hl, ho, hproof⟩
    -- every opening of an end is accepted
    obtain ⟨hcheck, hopen⟩ := hi.end_opening hl hends (t := t.tuple) ho
    refine hsound p.verifierState (readNonZeroVerify_iff.mpr ⟨hloc.symm, hroot.symm, hcheck, ?_,
      hn.symm, rfl⟩)
    rw [hproof, hroot]
    exact hopen
  · intro hend v' h
    obtain ⟨hloc, hroot, -, -, hn, -⟩ := readNonZeroVerify_iff.mp h
    obtain ⟨tuple, hl, ho, hproof, hcase⟩ :=
      readNonZero_opens hz hi cf Set.subset_union_left Set.subset_union_right h
    by_cases hht : t.leafOpening.headOrTail
    · rw [← ho] at hht
      exact hend ⟨hloc.symm, hroot.symm, hn.symm, _, tuple, (hi.headOrTail_iff hl).mp hht, hl,
        ho.symm, hproof⟩
    · refine ⟨_, tuple, hl, by rwa [ho], ?_, ?_⟩
      all_goals
        rw [hcase.resolve_left hht]; rfl
  · rintro hsound ⟨hloc, hroot, hn, i, tuple, hends, hl, ho, hproof, hnew⟩
    obtain ⟨hcheck, hopen⟩ := hi.end_opening hl hends (t := t.tuple) ho
    refine hsound { p.verifierState with subTreeRoot := t.newSubRoot } (updateVerify_iff.mpr
      ⟨hloc.symm, hroot.symm, hcheck, ?_, ?_, hn.symm, rfl⟩)
    · rw [hproof, hroot]
      exact hopen
    · have hopen : t.newOpening compress =
          (updatedTuple compress tuple t.newValue).leafOpening := by
        rw [UpdateTrace.newOpening, ho]; rfl
      rw [hproof, hopen, hnew]
      exact recoverRoot_insert (hi.inTree hl) _
  · intro hend v' h
    obtain ⟨hloc, hroot, -, -, -, hn, rfl⟩ := updateVerify_iff.mp h
    obtain ⟨tuple, hl, ho, hproof, hnew, hcase⟩ :=
      updateVerify_opens hz hi cf Set.subset_union_left Set.subset_union_right h
    by_cases hht : t.oldOpening.headOrTail
    · rw [← ho] at hht
      exact hend ⟨hloc.symm, hroot.symm, hn.symm, _, tuple, (hi.headOrTail_iff hl).mp hht, hl,
        ho.symm, hproof, hnew⟩
    · have htuple := hcase.resolve_left hht
      rw [← ho] at hht
      have hkey : tuple.key = t.key := by rw [htuple]; rfl
      refine ⟨⟨_, tuple, hl, hht, hkey, by rw [htuple]; rfl⟩, fun order hord => ?_⟩
      obtain ⟨tree', hc, hok⟩ := updateAndProve_spec hz hi hord hl
        (by rw [(hi.inner hl hht).1, hkey]) (congrArg _ hkey.symm) t.newValue
      exact ⟨_, _, hok, hc.root.trans hnew.symm⟩

end

theorem readNonZeroVerify_head_unsound :
    ∃ (p : ProverState FullBytes32 FullBytes32) (t : ReadNonZeroTrace FullBytes32 FullBytes32),
      NeverZero toyCompress ∧ Reachable toyCompress p ∧
      CollisionFree toyCompress (p.strings toyCompress ∪ t.strings toyCompress) ∧
      p.verifierState.readNonZeroVerify toyCompress t = .ok (none, p.verifierState) ∧
      p.Lacks t.key := by
  have hz := toyCompress_neverZero
  obtain ⟨tree, -, t, -, -, -, -, -, hr, -, -, -, -, -, hpasses, -⟩ := exists_toyRun
  obtain ⟨cf, v, h⟩ := hpasses.accepted (toyState_strings tree)
  obtain ⟨-, -, -, -, -, rfl⟩ := readNonZeroVerify_iff.mp h
  exact ⟨toyState tree, headTrace t, hz, hr, cf, h,
    Absent.lacks (hr.invariant hz) absent_initialData⟩

theorem accumulator_read_update_sound_toy :
    ∃ (p : ProverState FullBytes32 FullBytes32) (t : ReadNonZeroTrace FullBytes32 FullBytes32)
      (t' : UpdateTrace FullBytes32 FullBytes32) (v' : VerifierState), Reachable toyCompress p ∧
      (p.verifierState.readNonZeroVerify toyCompress t = .ok (none, p.verifierState) ∧
        p.Holds t.key t.value) ∧
      (p.verifierState.updateVerify toyCompress t' = .ok (none, v') ∧
        t'.UpdatesTo toyCompress p v'.subTreeRoot) := by
  have hz := toyCompress_neverZero
  obtain ⟨-, tree, -, -, -, t, t', -, -, hr, -, -, -, -, -, -, -, h, h', hinner, hinner'⟩ :=
    exists_toyRun
  obtain ⟨cf, v, h⟩ := h.accepted (toyState₁_strings tree)
  obtain ⟨cf', v', h'⟩ := h'.accepted (toyState₁_strings tree)
  obtain ⟨-, -, -, -, -, rfl⟩ := readNonZeroVerify_iff.mp h
  have hnot {i : Int64} {tuple : KVOpeningTuple FullBytes32 FullBytes32} {o : LeafOpening}
      (hends : i = 0 ∨ i = 1) (hl : (toyState₁ tree).data.lookup i = some tuple)
      (ho : o = tuple.leafOpening) : o.headOrTail := by
    rw [ho]
    exact ((hr.invariant hz).headOrTail_iff hl).mpr hends
  obtain ⟨hsoundRead, hsoundUpdate⟩ := accumulator_read_update_sound_iff hz hr
  refine ⟨_, t, t', v', hr, ⟨h, (hsoundRead t cf).mpr ?_ _ h⟩, h',
    (hsoundUpdate t' cf').mpr ?_ _ h'⟩
  · rintro ⟨-, -, -, i, tuple, hends, hl, ho, -⟩
    exact absurd (hnot hends hl ho) hinner
  · rintro ⟨-, -, -, i, tuple, hends, hl, ho, -⟩
    exact absurd (hnot hends hl ho) hinner'

end StatusNetwork.Prover
