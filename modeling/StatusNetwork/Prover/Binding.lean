import StatusNetwork.Prover.Completeness

/-!
# Binding

What a Merkle proof that the verifier accepts says about the data, for any proof.
The hash may not collide on the strings that the tree of the data hashes and
those that the check of the proof hashes. Openings write 48 elements and nodes
16, so without collisions no opening is taken for an inner node either.
-/

namespace StatusNetwork.Prover

open Merkle (node foldPairs siblings treePairs occupiedPairs emptyPairs)
open LeafOpening (head tail)

/-- The hash does not collide on these strings. -/
def CollisionFree (compress : Compress) (S : Set (List Element)) : Prop :=
  Set.InjOn (digest compress) S

/-- The string of an inner node with these two children. -/
def nodeString (q : KoalaOctuplet × KoalaOctuplet) : List Element := q.1.toList ++ q.2.toList

/-- The strings hashed when a root is recovered from `leaf`. -/
def walkStrings (compress : Compress) (proof : Proof) (leaf : KoalaOctuplet) :
    Set (List Element) :=
  { s | ∃ q ∈ foldPairs (hashLR compress) leaf (index proof.path) proof.siblings,
    s = nodeString q }

def treeStrings (compress : Compress) (data : Mapping K V) : Set (List Element) :=
  { s | (∃ i t, data.lookup i = some t ∧ s = elements t.leafOpening) ∨
    ∃ q ∈ treePairs (hashLR compress) (leafAt compress data) treeDepth, s = nodeString q }

/-- The strings hashed in a state: its tree, its keys and its values. -/
def ProverState.strings [WriterTo K] [WriterTo V] (compress : Compress) (p : ProverState K V) :
    Set (List Element) :=
  treeStrings compress p.data ∪
    { s | ∃ i t, p.data.lookup i = some t ∧ (s = elements t.key ∨ s = elements t.value) }

variable {compress : Compress} {S : Set (List Element)} {leaf : Nat → KoalaOctuplet}
  {x : KoalaOctuplet} {proof : Proof}

theorem nodeString_injective : Function.Injective nodeString := by
  rintro ⟨a, b⟩ ⟨c, d⟩ h
  obtain ⟨h1, h2⟩ := List.append_inj h (by simp)
  exact Prod.ext (KoalaOctuplet.toList_injective h1) (KoalaOctuplet.toList_injective h2)

theorem length_nodeString (q : KoalaOctuplet × KoalaOctuplet) : (nodeString q).length = 16 := by
  simp [nodeString]

theorem length_elements_opening (o : LeafOpening) : (elements o).length = 48 := by
  simp [elements]

theorem hash_opening_ne_zero (hz : NeverZero compress) (o : LeafOpening) : hash compress o ≠ 0 := by
  refine hash_ne_zero hz fun h => ?_
  have := length_elements_opening o
  simp [h] at this

theorem hashLR_injOn (cf : CollisionFree compress S) :
    Set.InjOn (Function.uncurry (hashLR compress)) { q | nodeString q ∈ S } :=
  fun _ hq _ hr h => nodeString_injective (cf hq hr h)

/-- What the leaves of the tree and the leaf of a proof can be. -/
def LeafLike (compress : Compress) (S : Set (List Element)) (x : KoalaOctuplet) : Prop :=
  x = emptyLeaf ∨ ∃ o : LeafOpening, elements o ∈ S ∧ x = hash compress o

theorem LeafLike.ne_node (hz : NeverZero compress) (cf : CollisionFree compress S)
    (hx : LeafLike compress S x) (hq : nodeString q ∈ S) : x ≠ hashLR compress q.1 q.2 := by
  intro he
  rcases hx with rfl | ⟨o, ho, rfl⟩
  · exact hashLR_ne_zero hz q.1 q.2 he.symm
  · have h := congrArg List.length (cf ho hq he)
    rw [length_elements_opening, length_nodeString] at h
    omega

section
variable (hz : NeverZero compress) (cf : CollisionFree compress S)
  (hleaf : ∀ j, LeafLike compress S (leaf j))
  (htree : ∀ q ∈ treePairs (hashLR compress) leaf treeDepth, nodeString q ∈ S)
include hz cf hleaf htree

/-- A proof of a leaf is the tree's own: it has the full length, the leaf is at
its path and the siblings are those of the path. -/
theorem recoverRoot_sound (hx : LeafLike compress S x) (hwalk : walkStrings compress proof x ⊆ S)
    (h : recoverRoot compress proof x = .ok (node (hashLR compress) leaf treeDepth 0)) :
    InTree proof.path ∧ leaf (index proof.path) = x ∧
      proof.siblings = siblings (hashLR compress) leaf treeDepth 0 (index proof.path) := by
  obtain ⟨i, hpath, hlt, hroot⟩ := recoverRoot_ok.mp h
  have hidx : index proof.path = i := by simp [index, hpath]
  have hpairs : ∀ q ∈ foldPairs (hashLR compress) x i proof.siblings, nodeString q ∈ S := by
    intro q hq
    exact hwalk ⟨q, by rw [hidx]; exact hq, rfl⟩
  have hinj := hashLR_injOn cf
  have hsub : treePairs (hashLR compress) leaf treeDepth ⊆ { q | nodeString q ∈ S } := htree
  rcases lt_trichotomy proof.siblings.length treeDepth with hlen | hlen | hlen
  · -- too short: the leaf would be an inner node
    obtain ⟨hnode, -⟩ := Merkle.fold_sound _ hinj hsub hlen.le hlt hpairs hroot
    obtain ⟨l, hl⟩ : ∃ l, treeDepth - proof.siblings.length = l + 1 :=
      ⟨treeDepth - proof.siblings.length - 1, by omega⟩
    rw [hl] at hnode
    refine absurd hnode (hx.ne_node hz cf (htree (_, _) ⟨l, i, by omega, ?_, rfl⟩))
    rwa [show treeDepth - l - 1 = proof.siblings.length by omega]
  · obtain ⟨hnode, hsib⟩ := Merkle.fold_sound _ hinj hsub hlen.le hlt hpairs hroot
    rw [hlen, Nat.sub_self] at hnode hsib
    rw [hlen] at hlt
    refine ⟨⟨by omega, by rw [hpath]; exact_mod_cast hlt⟩, ?_, ?_⟩
    · rw [hidx, hnode, node]
    · rw [hidx]; exact hsib
  · -- too long: a leaf of the tree would be an inner node
    obtain ⟨j, -, q, hq, he⟩ := Merkle.fold_deep _ hinj hsub hlen hlt hpairs hroot
    exact absurd he ((hleaf j).ne_node hz cf (hpairs q hq))

end

-- Proofs against the data

variable {K V : Type} {data : Mapping K V} {i : Int64} {t : KVOpeningTuple K V}

theorem leafLike_leafAt (hs : treeStrings compress data ⊆ S) (n : Nat) :
    LeafLike compress S (leafAt compress data n) := by
  rcases leafAt_cases compress data n with h | ⟨i, t, -, -, ht, h⟩
  · exact .inl h
  · exact .inr ⟨t.leafOpening, hs (.inl ⟨i, t, ht, rfl⟩), h⟩

section
variable (hz : NeverZero compress) (cf : CollisionFree compress S)
  (hs : treeStrings compress data ⊆ S)
include hz cf hs

theorem proof_sound (hx : LeafLike compress S x) (hwalk : walkStrings compress proof x ⊆ S)
    (h : recoverRoot compress proof x = .ok (rootOf compress data)) :
    InTree proof.path ∧ leafAt compress data (index proof.path) = x ∧
      proof = proofAt compress data proof.path := by
  obtain ⟨hin, hl, hsib⟩ := recoverRoot_sound hz cf (leafLike_leafAt hs)
    (fun q hq => hs (.inr ⟨q, hq, rfl⟩)) hx hwalk h
  refine ⟨hin, hl, ?_⟩
  cases proof
  exact congrArg _ hsib

theorem live_of_leafAt (ho : elements o ∈ S) (hi : InTree i)
    (h : leafAt compress data (index i) = hash compress o) :
    ∃ t, data.lookup i = some t ∧ t.leafOpening = o := by
  cases ht : data.lookup i with
  | none =>
    rw [leafAt_of_absent hi.1 ht] at h
    exact absurd h.symm (hash_opening_ne_zero hz o)
  | some t =>
    rw [leafAt_of_lookup hi.1 ht] at h
    exact ⟨t, rfl, elements_injective (cf (hs (.inl ⟨_, t, ht, rfl⟩)) ho h)⟩

/-- An opening that is authenticated is the one the data has at the path. -/
theorem opening_sound (ho : elements o ∈ S)
    (hwalk : walkStrings compress proof (hash compress o) ⊆ S)
    (h : recoverRoot compress proof (hash compress o) = .ok (rootOf compress data)) :
    InTree proof.path ∧ proof = proofAt compress data proof.path ∧
      ∃ t, data.lookup proof.path = some t ∧ t.leafOpening = o := by
  obtain ⟨hin, hl, hp⟩ := proof_sound hz cf hs (.inr ⟨o, ho, rfl⟩) hwalk h
  exact ⟨hin, hp, live_of_leafAt hz cf hs ho hin hl⟩

omit hz cf in
theorem treeStrings_write (hi : InTree i) (hother : ∀ j, j ≠ i → data'.lookup j = data.lookup j)
    (hnew : ∀ t, data'.lookup i = some t → elements t.leafOpening ∈ S)
    (hwalk : walkStrings compress (proofAt compress data i) (leafAt compress data' (index i)) ⊆ S) :
    treeStrings compress data' ⊆ S := by
  rintro s (⟨j, t, ht, rfl⟩ | ⟨q, hq, rfl⟩)
  · by_cases hj : j = i
    · exact hnew t (hj ▸ ht)
    · rw [hother j hj] at ht
      exact hs (.inl ⟨j, t, ht, rfl⟩)
  · rw [leafAt_update hi.1 hother] at hq
    rcases Merkle.treePairs_update _ hq with hq | hq
    · exact hs (.inr ⟨q, hq, rfl⟩)
    · exact hwalk ⟨q, hq, rfl⟩

omit hz cf in
theorem treeStrings_insert (hi : InTree i) (hnew : elements t.leafOpening ∈ S)
    (hwalk : walkStrings compress (proofAt compress data i) (hash compress t.leafOpening) ⊆ S) :
    treeStrings compress (data.insert i t) ⊆ S := by
  refine treeStrings_write hs hi (fun j hj => Finmap.lookup_insert_of_ne _ hj) ?_ ?_
  · intro t' ht'
    rw [Finmap.lookup_insert] at ht'
    cases ht'
    exact hnew
  · rwa [leafAt_of_lookup hi.1 (Finmap.lookup_insert _)]

omit hz cf in
theorem treeStrings_erase (hi : InTree i)
    (hwalk : walkStrings compress (proofAt compress data i) emptyLeaf ⊆ S) :
    treeStrings compress (data.erase i) ⊆ S := by
  refine treeStrings_write hs hi (fun j hj => Finmap.lookup_erase_ne hj) ?_ ?_
  · intro t' ht'
    rw [Finmap.lookup_erase] at ht'
    cases ht'
  · rwa [leafAt_of_absent hi.1 (Finmap.lookup_erase _ _)]

theorem updateCheckRoot_sound_insert (hx : LeafLike compress S x)
    (hwx : walkStrings compress proof x ⊆ S) (ht : elements t.leafOpening ∈ S)
    (hwt : walkStrings compress proof (hash compress t.leafOpening) ⊆ S)
    (h : updateCheckRoot compress proof (rootOf compress data) x (hash compress t.leafOpening) =
      .ok (some root)) :
    InTree proof.path ∧ leafAt compress data (index proof.path) = x ∧
      root = rootOf compress (data.insert proof.path t) ∧
      treeStrings compress (data.insert proof.path t) ⊆ S := by
  obtain ⟨hold, hnew⟩ := updateCheckRoot_ok.mp h
  obtain ⟨hin, hl, hp⟩ := proof_sound hz cf hs hx hwx hold
  rw [hp] at hnew hwt
  refine ⟨hin, hl, ?_, treeStrings_insert hs hin ht hwt⟩
  exact (Except.ok.inj ((recoverRoot_insert hin t).symm.trans hnew)).symm

theorem updateCheckRoot_sound_erase (hx : LeafLike compress S x)
    (hwx : walkStrings compress proof x ⊆ S) (hwe : walkStrings compress proof emptyLeaf ⊆ S)
    (h : updateCheckRoot compress proof (rootOf compress data) x emptyLeaf = .ok (some root)) :
    InTree proof.path ∧ leafAt compress data (index proof.path) = x ∧
      root = rootOf compress (data.erase proof.path) ∧
      treeStrings compress (data.erase proof.path) ⊆ S := by
  obtain ⟨hold, hnew⟩ := updateCheckRoot_ok.mp h
  obtain ⟨hin, hl, hp⟩ := proof_sound hz cf hs hx hwx hold
  rw [hp] at hnew hwe
  refine ⟨hin, hl, ?_, treeStrings_erase hs hin hwe⟩
  exact (Except.ok.inj ((recoverRoot_erase hin).symm.trans hnew)).symm

/-- An accepted rewrite of an opening is a write to the data. -/
theorem rewrite_sound {f : KVOpeningTuple K V → KVOpeningTuple K V}
    (hf : ∀ t, t.leafOpening = o → (f t).leafOpening = o') (ho : elements o ∈ S)
    (hw : walkStrings compress proof (hash compress o) ⊆ S) (ho' : elements o' ∈ S)
    (hw' : walkStrings compress proof (hash compress o') ⊆ S)
    (h : updateCheckRoot compress proof (rootOf compress data) (hash compress o)
      (hash compress o') = .ok (some root)) :
    ∃ t, data.lookup proof.path = some t ∧ t.leafOpening = o ∧
      root = rootOf compress (data.insert proof.path (f t)) ∧
      treeStrings compress (data.insert proof.path (f t)) ⊆ S := by
  obtain ⟨-, -, t, hl, hot⟩ := opening_sound hz cf hs ho hw (updateCheckRoot_ok.mp h).1
  rw [← hf t hot] at ho' hw' h
  obtain ⟨-, -, hroot⟩ :=
    updateCheckRoot_sound_insert hz cf hs (.inr ⟨_, ho, rfl⟩) hw ho' hw' h
  exact ⟨t, hl, hot, hroot⟩

end

/-- The walk of a real proof hashes pairs of the tree it ends in. -/
theorem walkStrings_proofAt (hi : InTree i) (hother : ∀ j, j ≠ i → data'.lookup j = data.lookup j)
    (hx : leafAt compress data' (index i) = x) :
    walkStrings compress (proofAt compress data i) x ⊆ treeStrings compress data' := by
  rintro s ⟨q, hq, rfl⟩
  rw [← proofAt_update hi.1 hother, ← hx] at hq
  exact .inr ⟨q, Merkle.foldPairs_siblings _ (l := 0) (by omega) hi.index_lt hq, rfl⟩

-- A set of strings on which the toy hash does not collide

/-- A search tree of strings. -/
inductive Table
  | nil
  | node (left : Table) (key : Nat) (value : List Element) (right : Table)

def Table.insert (key : Nat) (value : List Element) : Table → Table
  | .nil => .node .nil key value .nil
  | .node left k v right =>
    bif key.blt k then .node (left.insert key value) k v right
    else bif k.blt key then .node left k v (right.insert key value)
    else .node left k v right

def Table.find? (key : Nat) : Table → Option (List Element)
  | .nil => none
  | .node left k v right =>
    bif key.blt k then left.find? key else bif k.blt key then right.find? key else some v

def toyHead : KVOpeningTuple FullBytes32 FullBytes32 := ⟨.head, default, default⟩
def toyTail : KVOpeningTuple FullBytes32 FullBytes32 := ⟨.tail, default, default⟩
def toyTuple : KVOpeningTuple FullBytes32 FullBytes32 := insertedTuple toyCompress 5 7 0 1

def toyEntries : List (KVOpeningTuple FullBytes32 FullBytes32) :=
  [toyHead, toyTail, toyHead.copyWithNext 2, toyTail.copyWithPrev 2, toyTuple]

/-- The first leaves of the trees met when the last entry is inserted into the empty
accumulator and when it is deleted again. -/
def toyTrees : List (List LeafOpening) :=
  let head' := LeafOpening.head.copyWithNext 2
  let tail' := LeafOpening.tail.copyWithPrev 2
  let new := toyTuple.leafOpening
  [[.head, .tail], [head', .tail], [head', .tail, new], [head', tail', new], [.head, tail', new],
    [.head, tail']]

def toyPairs (leaves : List LeafOpening) : List (KoalaOctuplet × KoalaOctuplet) :=
  occupiedPairs (hashLR toyCompress) treeDepth emptyLeaf (leaves.map (hash toyCompress)) ++
    emptyPairs (hashLR toyCompress) treeDepth emptyLeaf

def toyStrings : List (List Element) :=
  (toyEntries.flatMap fun t => [elements t.leafOpening, elements t.key, elements t.value]) ++
    (toyTrees.flatMap toyPairs).map nodeString

def toyKey (digest : KoalaOctuplet) : Nat := (digest.toList.headD 0).val

def toyTable : Table :=
  toyStrings.foldl (fun table s => table.insert (toyKey (digest toyCompress s)) s) .nil

/-- The strings that the table finds by their digests. -/
def toySet : Set (List Element) :=
  { s | toyTable.find? (toyKey (digest toyCompress s)) = some s }

instance (s : List Element) : Decidable (s ∈ toySet) := inferInstanceAs (Decidable (_ = some s))

theorem toySet_collisionFree : CollisionFree toyCompress toySet := by
  intro a ha b hb he
  have hfind : toyTable.find? (toyKey (digest toyCompress a)) = some b := he ▸ hb
  exact Option.some.inj (Eq.trans (Eq.symm ha) hfind)

theorem toyStrings_subset : ∀ s ∈ toyStrings, s ∈ toySet := by decide +kernel

theorem strings_subset_toySet {p : ProverState FullBytes32 FullBytes32} (htree : leaves ∈ toyTrees)
    (hentries : ∀ i t, p.data.lookup i = some t → t ∈ toyEntries)
    (hleaf : leafAt toyCompress p.data =
      fun n => (leaves.map (hash toyCompress)).getD n emptyLeaf) :
    p.strings toyCompress ⊆ toySet := by
  have hentry {i t s} (ht : p.data.lookup i = some t)
      (hs : s ∈ [elements t.leafOpening, elements t.key, elements t.value]) : s ∈ toySet :=
    toyStrings_subset s (List.mem_append_left _ (List.mem_flatMap_of_mem (hentries i t ht) hs))
  apply Set.union_subset
  · rintro s (⟨i, t, ht, hs⟩ | ⟨q, hq, rfl⟩)
    · exact hentry ht (by simp [hs])
    · rw [hleaf] at hq
      have hpair : q ∈ toyPairs leaves := List.mem_append.mpr (Merkle.treePairs_sparse _ hq)
      exact toyStrings_subset _ (List.mem_append_right _
        (List.mem_map_of_mem (List.mem_flatMap_of_mem htree hpair)))
  · rintro s ⟨i, t, ht, hs⟩
    exact hentry ht (List.mem_cons_of_mem _ (by simpa using hs))

def toyState (tree : Tree) : ProverState FullBytes32 FullBytes32 :=
  { location := "0x", nextFreeNode := 2, tree, data := initialData _ _ }

/-- The state with the entry. -/
def toyState₁ (tree : Tree) : ProverState FullBytes32 FullBytes32 :=
  { location := "0x", nextFreeNode := 3, tree
    data := insertedData (initialData _ _) 0 2 1 toyHead toyTuple toyTail }

theorem toyState_strings (tree : Tree) : (toyState tree).strings toyCompress ⊆ toySet := by
  refine strings_subset_toySet (.head _) (fun i t ht => ?_) ?_
  · rcases initialData_cases ht with ⟨-, rfl⟩ | ⟨-, rfl⟩ <;> simp [toyEntries, toyHead, toyTail]
  · rw [toyState, initialData, leafAt_insert (by decide), leafAt_insert (by decide)]
    funext n
    rcases n with _ | _ | n
    · rfl
    · rfl
    · simp [leafAt, show index 0 = 0 from rfl, show index 1 = 1 from rfl]

theorem toyState₁_strings (tree : Tree) : (toyState₁ tree).strings toyCompress ⊆ toySet := by
  refine strings_subset_toySet (.tail _ (.tail _ (.tail _ (.head _)))) (fun i t ht => ?_) ?_
  · rw [toyState₁, lookup_insertedData] at ht
    split_ifs at ht
    · cases ht
      simp [toyEntries]
    · cases ht
      simp [toyEntries]
    · cases ht
      simp [toyEntries]
    · rcases initialData_cases ht with ⟨-, rfl⟩ | ⟨-, rfl⟩ <;> simp [toyEntries, toyHead, toyTail]
  · simp only [toyState₁, insertedData, initialData]
    iterate 5 rw [leafAt_insert (by decide)]
    funext n
    rcases n with _ | _ | _ | n
    · rfl
    · rfl
    · rfl
    · simp [leafAt, show index 0 = 0 from rfl, show index 1 = 1 from rfl,
        show index 2 = 2 from rfl]

end StatusNetwork.Prover
