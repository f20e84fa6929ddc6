import StatusNetwork.Base.Control
import StatusNetwork.Prover.Accumulator
import StatusNetwork.Prover.SparseMerkleTreeLaws

/-!
# Openings and leaves

The tree of an accumulator stores at each position the hash of the opening the
data has there (`Committed`). One write of the prover keeps this and returns the
siblings of its position, and the verifier's `updateCheckRoot` on that proof
finds the root of the written data.
-/

namespace StatusNetwork.Prover

open Merkle (node siblings)
open Finmap (lookup_erase lookup_erase_ne lookup_insert lookup_insert_of_ne)

variable {compress : Compress} {K V : Type} {data : Mapping K V} {i : Int64}

-- Positions

/-- The index in the tree of a position that is not negative. -/
def index (i : Int64) : Nat := i.toInt.toNat

theorem ofNat_index (hi : 0 ≤ i.toInt) : Int64.ofNat (index i) = i := by
  have h63 := i.toInt_lt
  rw [← Int64.toInt_inj, Int64.toInt_ofNat_of_lt (by unfold index; omega)]
  exact Int.toNat_of_nonneg hi

theorem treePos_eq (hi : 0 ≤ i.toInt) : treePos i = .ok (index i) := by
  simp [treePos, index, not_lt.mpr hi]

theorem treePos_ok : treePos i = .ok n ↔ 0 ≤ i.toInt ∧ index i = n := by
  simp [treePos, guard_eq_ok, index]

def InTree (i : Int64) : Prop := 0 ≤ i.toInt ∧ i.toInt < 2 ^ treeDepth

theorem InTree.index_lt (hi : InTree i) : index i < 2 ^ treeDepth := by
  have := hi.2
  simp only [treeDepth, index] at *
  omega

-- The leaves of the data

theorem lookup_insert_ite [DecidableEq α] {m : Finmap fun _ : α => β} :
    (m.insert a b).lookup a' = if a' = a then some b else m.lookup a' := by
  split_ifs with h
  · rw [h, lookup_insert]
  · rw [lookup_insert_of_ne _ h]

theorem lookup_erase_ite [DecidableEq α] {m : Finmap fun _ : α => β} :
    (m.erase a).lookup a' = if a' = a then none else m.lookup a' := by
  split_ifs with h
  · rw [h, lookup_erase]
  · rw [lookup_erase_ne h]

theorem mustGet_ok : data.mustGet i = .ok t ↔ data.lookup i = some t := by
  unfold Mapping.mustGet
  cases data.lookup i <;> simp

/-- The leaf the data has at index `n` of the tree. -/
def leafAt (compress : Compress) (data : Mapping K V) (n : Nat) : KoalaOctuplet :=
  if n < 2 ^ 63 then
    ((data.lookup (.ofNat n)).map fun t => hash compress t.leafOpening).getD emptyLeaf
  else emptyLeaf

theorem leafAt_cases (compress : Compress) (data : Mapping K V) (n : Nat) :
    leafAt compress data n = emptyLeaf ∨
      ∃ i t, 0 ≤ i.toInt ∧ index i = n ∧ data.lookup i = some t ∧
        leafAt compress data n = hash compress t.leafOpening := by
  by_cases hn : n < 2 ^ 63
  · cases h : data.lookup (.ofNat n) with
    | none => left; simp [leafAt, h]
    | some t =>
      right
      refine ⟨_, t, ?_, ?_, h, by rw [leafAt, if_pos hn, h]; rfl⟩
      · rw [Int64.toInt_ofNat_of_lt hn]; omega
      · rw [index, Int64.toInt_ofNat_of_lt hn]; rfl
  · exact .inl (if_neg hn)

section
variable (hi : 0 ≤ i.toInt)
include hi

theorem leafAt_of_lookup (h : data.lookup i = some t) :
    leafAt compress data (index i) = hash compress t.leafOpening := by
  have h63 := i.toInt_lt
  have hlt : index i < 2 ^ 63 := by unfold index; omega
  rw [leafAt, if_pos hlt, ofNat_index hi, h]
  rfl

theorem leafAt_of_absent (h : data.lookup i = none) :
    leafAt compress data (index i) = emptyLeaf := by
  rw [leafAt, ofNat_index hi, h]
  exact ite_self _

theorem leafAt_update (hother : ∀ j, j ≠ i → data'.lookup j = data.lookup j) :
    leafAt compress data' =
      Function.update (leafAt compress data) (index i) (leafAt compress data' (index i)) := by
  funext n
  by_cases hn : n = index i
  · rw [hn, Function.update_self]
  · rw [Function.update_of_ne hn]
    by_cases hb : n < 2 ^ 63
    · have hne : Int64.ofNat n ≠ i := by
        rintro rfl
        rw [index, Int64.toInt_ofNat_of_lt hb] at hn
        exact hn rfl
      simp only [leafAt, hother _ hne]
    · rw [leafAt, leafAt, if_neg hb, if_neg hb]

theorem leafAt_insert (t : KVOpeningTuple K V) :
    leafAt compress (data.insert i t) =
      Function.update (leafAt compress data) (index i) (hash compress t.leafOpening) := by
  rw [leafAt_update hi fun j hj => lookup_insert_of_ne _ hj, leafAt_of_lookup hi (lookup_insert _)]

def rootOf (compress : Compress) (data : Mapping K V) : KoalaOctuplet :=
  node (hashLR compress) (leafAt compress data) treeDepth 0

def proofAt (compress : Compress) (data : Mapping K V) (i : Int64) : Proof :=
  { path := i
    siblings := siblings (hashLR compress) (leafAt compress data) treeDepth 0 (index i) }

omit hi in
@[simp] theorem proofAt_path : (proofAt compress data i).path = i := rfl

theorem proofAt_update (hother : ∀ j, j ≠ i → data'.lookup j = data.lookup j) :
    proofAt compress data' i = proofAt compress data i := by
  have h := Merkle.siblings_update (hashLR compress) (leafAt compress data) (index i)
    (leafAt compress data' (index i)) treeDepth 0
  rw [← leafAt_update hi hother, Nat.pow_zero, Nat.div_one] at h
  simp only [proofAt, h]

end

theorem recoverRoot_proofAt (hi : InTree i) (leaf : KoalaOctuplet) :
    recoverRoot compress (proofAt compress data i) leaf =
      .ok (node (hashLR compress) (Function.update (leafAt compress data) (index i) leaf)
        treeDepth 0) := by
  rw [recoverRoot_ok]
  refine ⟨index i, (Int.toNat_of_nonneg hi.1).symm, ?_, ?_⟩
  · exact hi.index_lt
  · rw [proofAt, ← Merkle.node_update_path, Nat.div_eq_of_lt hi.index_lt]

theorem recoverRoot_rootOf (hi : InTree i) (hother : ∀ j, j ≠ i → data'.lookup j = data.lookup j) :
    recoverRoot compress (proofAt compress data i) (leafAt compress data' (index i)) =
      .ok (rootOf compress data') := by
  rw [recoverRoot_proofAt hi, ← leafAt_update hi.1 hother, rootOf]

theorem recoverRoot_insert (hi : InTree i) (t : KVOpeningTuple K V) :
    recoverRoot compress (proofAt compress data i) (hash compress t.leafOpening) =
      .ok (rootOf compress (data.insert i t)) := by
  rw [← leafAt_of_lookup hi.1 (lookup_insert data)]
  exact recoverRoot_rootOf hi fun j hj => lookup_insert_of_ne _ hj

theorem recoverRoot_erase (hi : InTree i) :
    recoverRoot compress (proofAt compress data i) emptyLeaf =
      .ok (rootOf compress (data.erase i)) := by
  rw [← leafAt_of_absent hi.1 (lookup_erase i data)]
  exact recoverRoot_rootOf hi fun j hj => lookup_erase_ne hj

variable (compress data) in
theorem verify_proofAt (hi : InTree i) :
    verify compress (proofAt compress data i) (leafAt compress data (index i))
      (rootOf compress data) = .ok true :=
  verify_ok.mpr (recoverRoot_rootOf hi fun _ _ => rfl)

theorem updateCheckRoot_ok :
    updateCheckRoot compress proof root old new = .ok (some r) ↔
      recoverRoot compress proof old = .ok root ∧ recoverRoot compress proof new = .ok r := by
  rw [← verify_ok]
  unfold updateCheckRoot
  cases verify compress proof old root with
  | error e => simp
  | ok b =>
    cases b with
    | false => simp
    | true => cases recoverRoot compress proof new <;> simp

theorem recoverRoot_old (hi : InTree i) (hold : leafAt compress data (index i) = old) :
    recoverRoot compress (proofAt compress data i) old = .ok (rootOf compress data) := by
  rw [← hold]
  exact recoverRoot_rootOf hi fun _ _ => rfl

theorem updateCheckRoot_insert (hi : InTree i) (t : KVOpeningTuple K V)
    (hold : leafAt compress data (index i) = old) :
    updateCheckRoot compress (proofAt compress data i) (rootOf compress data) old
      (hash compress t.leafOpening) = .ok (some (rootOf compress (data.insert i t))) :=
  updateCheckRoot_ok.mpr ⟨recoverRoot_old hi hold, recoverRoot_insert hi t⟩

theorem updateCheckRoot_erase (hi : InTree i) (hold : leafAt compress data (index i) = old) :
    updateCheckRoot compress (proofAt compress data i) (rootOf compress data) old emptyLeaf =
      .ok (some (rootOf compress (data.erase i))) :=
  updateCheckRoot_ok.mpr ⟨recoverRoot_old hi hold, recoverRoot_erase hi⟩

-- One write of the prover

/-- The tree stores the openings of the data. -/
structure Committed (compress : Compress) (tree : Tree) (data : Mapping K V) : Prop where
  depth : tree.depth = treeDepth
  represents : tree.Represents compress (leafAt compress data)

variable {tree : Tree}

theorem Committed.root (hc : Committed compress tree data) : tree.root = rootOf compress data := by
  rw [hc.represents.root, hc.depth, rootOf]

theorem Committed.update_bound (hc : Committed compress tree data)
    (h : tree.update compress n leaf = .ok tree') : n < 2 ^ treeDepth := by
  have hbound := (guard_eq_ok.mp h).1
  rw [hc.depth, oneShl_eq (by decide), not_le] at hbound
  exact_mod_cast hbound

section
variable (hz : NeverZero compress) (hi : InTree i)
include hz hi

theorem Committed.mustProve (hc : Committed compress tree data) :
    tree.mustProve (index i) = .ok (proofAt compress data i) := by
  rw [Tree.mustProve_spec hz hc.represents (by rw [hc.depth]; exact hi.index_lt), hc.depth,
    ofNat_index hi.1, proofAt]

theorem Committed.write (hc : Committed compress tree data)
    (hother : ∀ j, j ≠ i → data'.lookup j = data.lookup j) :
    ∃ tree', tree.update compress (index i) (leafAt compress data' (index i)) = .ok tree' ∧
      Committed compress tree' data' ∧
      tree'.mustProve (index i) = .ok (proofAt compress data i) := by
  obtain ⟨tree', hok, hd, hr⟩ := Tree.update_spec hz
    hc.represents (by rw [hc.depth]; exact hi.index_lt)
  rw [← leafAt_update hi.1 hother] at hr
  have hc' : Committed compress tree' data' := ⟨hd.trans hc.depth, hr⟩
  refine ⟨tree', hok, hc', ?_⟩
  rw [hc'.mustProve hz hi, proofAt_update hi.1 hother]

theorem Committed.insert (hc : Committed compress tree data) (t : KVOpeningTuple K V) :
    ∃ tree', tree.update compress (index i) (hash compress t.leafOpening) = .ok tree' ∧
      Committed compress tree' (data.insert i t) ∧
      tree'.mustProve (index i) = .ok (proofAt compress data i) := by
  rw [← leafAt_of_lookup hi.1 (lookup_insert data)]
  exact hc.write hz hi fun j hj => lookup_insert_of_ne _ hj

variable {p : ProverState K V}

theorem rmTuple_spec (hc : Committed compress p.tree p.data)
    (hlive : p.data.lookup i = some tuple) :
    ∃ tree', p.rmTuple compress i =
        .ok (proofAt compress p.data i, { p with data := p.data.erase i, tree := tree' }) ∧
      Committed compress tree' (p.data.erase i) := by
  obtain ⟨tree', hok, hc', hproof⟩ := hc.write hz hi fun j hj =>
    lookup_erase_ne hj
  rw [leafAt_of_absent hi.1 (lookup_erase _ _)] at hok
  refine ⟨tree', ?_, hc'⟩
  simp [ProverState.rmTuple, mustGet_ok.mpr hlive, treePos_eq hi.1, hok, hproof]

variable [WriterTo K] [WriterTo V]

theorem upsertTuple_spec (hc : Committed compress p.tree p.data)
    (hcheck : p.checkUpsert compress i tuple = .ok (hash compress tuple.leafOpening)) :
    ∃ tree', p.upsertTuple compress i tuple =
        .ok (proofAt compress p.data i, { p with data := p.data.insert i tuple, tree := tree' }) ∧
      Committed compress tree' (p.data.insert i tuple) := by
  obtain ⟨tree', hok, hc', hproof⟩ := hc.insert hz hi tuple
  refine ⟨tree', ?_, hc'⟩
  simp [ProverState.upsertTuple, hcheck, treePos_eq hi.1, hok, hproof]

end

end StatusNetwork.Prover
