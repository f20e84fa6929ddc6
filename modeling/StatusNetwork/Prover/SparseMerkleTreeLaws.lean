import StatusNetwork.Prover.SparseMerkleTree

/-!
# The sparse tree is the full tree

`Tree.Represents t leaf`: the stored levels, their implicit empty tails and
the root are those of the full tree over `leaf`. An empty tree represents the
empty leaves, `update` overwrites one leaf, `mustProve` returns the siblings,
and none of them panics within the bounds. The only assumption is that the
compression never returns zero, which `getNode` takes for a corrupted node.
-/

namespace StatusNetwork.Prover

open Merkle (node fold siblings)

variable {compress : Compress}

/-- No output of the compression function is the zero octuplet. -/
def NeverZero (compress : Compress) : Prop := ∀ state block, compress state block ≠ 0

/-- A compression function to evaluate the model with: a polynomial of the block
in the first limb, and a last limb that is never zero. -/
def toyCompress : Compress := fun state block =>
  ⟨#v[block.toList.foldl (fun acc x => acc * 31 + x) (state.toList.headD 0), 0, 0, 0, 0, 0, 0, 1]⟩

theorem toyCompress_neverZero : NeverZero toyCompress := by
  intro state block h
  have hlast : some (1 : Element) = (0 : KoalaOctuplet).toList.getLast? :=
    congrArg (fun e : KoalaOctuplet => e.toList.getLast?) h
  exact absurd hlast (by decide)

theorem sumElement_ne_zero (hz : NeverZero compress) (hs : s ≠ []) :
    sumElement compress state s ≠ 0 := by
  fun_induction sumElement compress state s with
  | case1 state a b c d e f g h rest ih =>
    cases rest with
    | nil => simpa [sumElement] using hz _ _
    | cons => exact ih (by simp)
  | case2 => contradiction
  | case3 => exact hz _ _

theorem hash_ne_zero (hz : NeverZero compress) [WriterTo α] {m : α} (h : elements m ≠ []) :
    hash compress m ≠ 0 :=
  sumElement_ne_zero hz h

theorem hashLR_ne_zero (hz : NeverZero compress) (l r : KoalaOctuplet) :
    hashLR compress l r ≠ 0 := by
  refine sumElement_ne_zero hz fun h => ?_
  have := congrArg List.length h
  simp at this

-- Levels

/-- The root of an empty subtree of height `l`. -/
def emptyNode (compress : Compress) (l : Nat) : KoalaOctuplet :=
  node (hashLR compress) (fun _ => emptyLeaf) l 0

theorem node_const (a : KoalaOctuplet) (l i j : Nat) :
    node (hashLR compress) (fun _ => a) l i = node (hashLR compress) (fun _ => a) l j := by
  induction l generalizing i j with
  | zero => rfl
  | succ l ih => simp only [node, ih _ 0]

theorem emptyNode_succ (l : Nat) :
    emptyNode compress (l + 1) = hashLR compress (emptyNode compress l) (emptyNode compress l) := by
  simp only [emptyNode, node]
  rw [node_const _ l (2 * 0 + 1) 0]

theorem oneShl_eq (h : k < 63) : oneShl k = (2 ^ k : Nat) := by
  have hlt : 2 ^ k < 2 ^ 63 := Nat.pow_lt_pow_right (by decide) h
  have hto : (1#64 <<< k).toNat = 2 ^ k := by
    simp only [BitVec.toNat_shiftLeft, BitVec.toNat_ofNat, Nat.shiftLeft_eq]
    rw [Nat.one_mul, Nat.mod_eq_of_lt (by omega)]
  rw [oneShl, BitVec.toInt_eq_toNat_of_lt (by omega), hto]

theorem not_ge_oneShl {pos : Nat} (h : k < 63) (hp : pos < 2 ^ k) : ¬ (pos : Int) ≥ oneShl k := by
  rw [oneShl_eq h]
  exact_mod_cast Nat.not_le.mpr hp

theorem not_gt_oneShl {size : Nat} (h : k < 63) (hp : size ≤ 2 ^ k) :
    ¬ (size : Int) > oneShl k := by
  rw [oneShl_eq h]
  exact_mod_cast Nat.not_lt.mpr hp

namespace Tree

variable {t : Tree} {leaf f : Nat → KoalaOctuplet} {v : KoalaOctuplet}

structure Shape (compress : Compress) (t : Tree) : Prop where
  depth_pos : 0 < t.depth
  depth_lt : t.depth < 63
  levels : t.occupiedNodes.length = t.depth - 1
  empties : ∀ l, l < t.depth - 1 → t.emptyNodes[l]? = some (emptyNode compress (l + 1))

def Stores (compress : Compress) (t : Tree) : Nat → (Nat → KoalaOctuplet) → Prop
  | 0, f => t.occupiedLeaves.length ≤ 2 ^ t.depth ∧ ∀ j, t.occupiedLeaves.getD j emptyLeaf = f j
  | l + 1, f => ∃ nodes, t.occupiedNodes[l]? = some nodes ∧
      nodes.length ≤ 2 ^ (t.depth - (l + 1)) ∧
      ∀ j, nodes.getD j (emptyNode compress (l + 1)) = f j

structure Represents (compress : Compress) (t : Tree) (leaf : Nat → KoalaOctuplet) : Prop where
  shape : t.Shape compress
  stores : ∀ l < t.depth, t.Stores compress l (node (hashLR compress) leaf l)
  root : t.root = node (hashLR compress) leaf t.depth 0

theorem getD_padTo_set (nodes : List KoalaOctuplet) (empty v : KoalaOctuplet) (pos j : Nat) :
    ((padTo nodes (pos + 1) empty).set pos v).getD j empty =
      if j = pos then v else nodes.getD j empty := by
  simp only [padTo, List.getD_eq_getElem?_getD, List.getElem?_set, List.length_append,
    List.length_replicate]
  by_cases hj : pos = j
  · subst hj
    rw [if_pos rfl, if_pos (by omega), if_pos rfl]
    rfl
  · rw [if_neg hj, if_neg (Ne.symm hj), List.getElem?_append]
    split
    · rfl
    · rw [List.getElem?_eq_none (l := nodes) (by omega), List.getElem?_replicate]
      split <;> rfl

theorem length_padTo_set (nodes : List KoalaOctuplet) (empty v : KoalaOctuplet) (pos : Nat) :
    ((padTo nodes (pos + 1) empty).set pos v).length = max nodes.length (pos + 1) := by
  simp only [padTo, List.length_set, List.length_append, List.length_replicate]
  omega

theorem padTo_of_le (h : n ≤ nodes.length) : padTo nodes n empty = nodes := by
  simp [padTo, Nat.sub_eq_zero_of_le h]

theorem updateNode_leaf (ht : t.Shape compress) (hp : pos < 2 ^ t.depth) :
    t.updateNode 0 pos v = .ok { t with
      occupiedLeaves := (padTo t.occupiedLeaves (pos + 1) emptyLeaf).set pos v } := by
  have hd := ht.depth_pos
  have hsize : ¬ ((pos + 1 : Nat) : Int) > oneShl t.depth := not_gt_oneShl ht.depth_lt hp
  have hinner : ¬ (1 ≤ 0 ∧ 0 < t.depth) := by omega
  simp only [updateNode, hd.ne, if_false, if_true, hinner, not_ge_oneShl ht.depth_lt hp]
  by_cases hin : pos ≥ t.occupiedLeaves.length
  · simp only [hin, if_true, reserveLevel, hd.not_ge, if_false, Nat.sub_zero, hsize, bind,
      Except.bind]
  · rw [padTo_of_le (by omega)]
    simp [hin, bind, Except.bind]

theorem modify_eq_set {ls : List (List KoalaOctuplet)} (h : ls[l]? = some a)
    (g : List KoalaOctuplet → List KoalaOctuplet) : ls.modify l g = ls.set l (g a) := by
  obtain ⟨hl, ha⟩ := List.getElem?_eq_some_iff.mp h
  apply List.ext_getElem?
  intro j
  rw [List.getElem?_modify, List.getElem?_set]
  split
  · subst l; simp [hl, ha]
  · simp

theorem updateNode_inner (ht : t.Shape compress) (hl : l + 1 < t.depth)
    (hp : pos < 2 ^ (t.depth - (l + 1))) (hn : t.occupiedNodes[l]? = some nodes) :
    t.updateNode (l + 1) pos v = .ok { t with
      occupiedNodes := t.occupiedNodes.set l
        ((padTo nodes (pos + 1) (emptyNode compress (l + 1))).set pos v) } := by
  have hlt : t.depth - (l + 1) < 63 := Nat.lt_of_le_of_lt (Nat.sub_le _ _) ht.depth_lt
  have hsize := not_gt_oneShl hlt hp
  have hempty := ht.empties l (by omega)
  have hget : t.occupiedNodes.getD l [] = nodes := by
    rw [List.getD_eq_getElem?_getD, hn]; rfl
  simp only [updateNode, hl.ne, if_false, Nat.le_add_left, true_and, hl, if_true,
    not_ge_oneShl hlt hp, Nat.add_sub_cancel, hget]
  by_cases hin : pos ≥ nodes.length
  · have hlt := (List.getElem?_eq_some_iff.mp hn).1
    simp only [hin, if_true, reserveLevel, hl.not_ge, if_false, hsize, Nat.add_one_ne_zero,
      Nat.add_sub_cancel, hn, hempty, bind, Except.bind]
    rw [modify_eq_set (List.getElem?_set_self hlt), List.set_set]
  · rw [padTo_of_le (by omega)]
    simp only [hin, if_false, bind, Except.bind]
    rw [modify_eq_set hn]

section
variable (ht : t.Shape compress) (hl : level < t.depth) (hp : pos < 2 ^ (t.depth - level))
  (hs : t.Stores compress level f)
include ht hl hp hs

theorem updateNode_spec :
    ∃ t', t.updateNode level pos v = .ok t' ∧ t'.Shape compress ∧ t'.depth = t.depth ∧
      t'.Stores compress level (Function.update f pos v) ∧
      ∀ l g, l ≠ level → t.Stores compress l g → t'.Stores compress l g := by
  cases level with
  | zero =>
    obtain ⟨hlen, hleaf⟩ := hs
    refine ⟨_, updateNode_leaf ht hp, { ht with }, rfl, ⟨?_, ?_⟩, ?_⟩
    · rw [length_padTo_set]
      exact Nat.max_le.mpr ⟨hlen, hp⟩
    · intro j
      rw [getD_padTo_set, Function.update_apply, hleaf]
    · intro l g hne hg
      cases l with
      | zero => contradiction
      | succ l => exact hg
  | succ l =>
    obtain ⟨nodes, hn, hlen, hnode⟩ := hs
    have hlt : l < t.occupiedNodes.length := by rw [ht.levels]; omega
    refine ⟨_, updateNode_inner ht hl hp hn, ⟨ht.1, ht.2, by simpa using ht.3, ht.4⟩, rfl,
      ⟨_, List.getElem?_set_self hlt, ?_, ?_⟩, ?_⟩
    · rw [length_padTo_set]
      exact Nat.max_le.mpr ⟨hlen, hp⟩
    · intro j
      rw [getD_padTo_set, Function.update_apply, hnode]
    · intro m g hne hg
      cases m with
      | zero => exact hg
      | succ m =>
        obtain ⟨other, ho, hol, hog⟩ := hg
        refine ⟨other, ?_, hol, hog⟩
        rw [← ho]
        exact List.getElem?_set_ne (by omega)

theorem getNode_spec (hz : level ≠ 0 → f pos ≠ 0) : t.getNode level pos = .ok (f pos) := by
  cases level with
  | zero =>
    have hp' := not_ge_oneShl ht.depth_lt hp
    have hno : ¬ (1 ≤ 0 ∧ 0 ≤ t.depth - 1) := by omega
    simp only [getNode, hl.ne, if_false, hno, if_true, getLeaf, hp', hs.2]
  | succ l =>
    obtain ⟨nodes, hn, hlen, hnode⟩ := hs
    have hle : l + 1 ≤ t.depth - 1 := by omega
    have hp' := not_ge_oneShl (Nat.lt_of_le_of_lt (Nat.sub_le _ _) ht.depth_lt) hp
    simp only [getNode, hl.ne, if_false, Nat.le_add_left, true_and, hle, if_true, hp',
      Nat.add_sub_cancel, hn]
    rw [← hnode, List.getD_eq_getElem?_getD] at hz ⊢
    cases hj : nodes[pos]? with
    | none => simp [ht.empties l (by omega)]
    | some res =>
      rw [hj] at hz
      simp [show res ≠ 0 from hz (by omega)]

end

-- The operations

/-- The loop of `update` from height `level` on: the levels below already hold
the new nodes, the levels above still the old ones. -/
theorem updateFrom_spec (hz : NeverZero compress) (hpos : pos < 2 ^ t.depth)
    (hn : level + n = t.depth) (ht : t.Shape compress) (hlow : ∀ l < level, t.Stores compress l
      (node (hashLR compress) (Function.update leaf pos v) l))
    (hhigh : ∀ l, level ≤ l → l < t.depth → t.Stores compress l (node (hashLR compress) leaf l)) :
    ∃ t', updateFrom compress n t level (pos / 2 ^ level)
        (node (hashLR compress) (Function.update leaf pos v) level (pos / 2 ^ level)) =
        .ok (t', 0, node (hashLR compress) (Function.update leaf pos v) t.depth 0) ∧
      t'.depth = t.depth ∧ t'.Shape compress ∧
      ∀ l < t.depth, t'.Stores compress l
        (node (hashLR compress) (Function.update leaf pos v) l) := by
  induction n generalizing t level with
  | zero =>
    have hl : level = t.depth := by omega
    refine ⟨t, ?_, rfl, ht, fun l h => hlow l (by omega)⟩
    rw [hl, Nat.div_eq_of_lt hpos]
    rfl
  | succ n ih =>
    have hl : level < t.depth := by omega
    have hidx : pos / 2 ^ level < 2 ^ (t.depth - level) := by
      rw [Nat.div_lt_iff_lt_mul (Nat.two_pow_pos _), ← Nat.pow_add, Nat.sub_add_cancel hl.le]
      exact hpos
    obtain ⟨t₁, hupd, ht₁, hd₁, hst₁, hframe⟩ :=
      updateNode_spec (v := node (hashLR compress) (Function.update leaf pos v) level
        (pos / 2 ^ level)) ht hl hidx (hhigh level le_rfl hl)
    -- the written level now holds the new nodes
    have hnew : Function.update (node (hashLR compress) leaf level) (pos / 2 ^ level)
        (node (hashLR compress) (Function.update leaf pos v) level (pos / 2 ^ level)) =
        node (hashLR compress) (Function.update leaf pos v) level := by
      funext j
      by_cases hj : j = pos / 2 ^ level
      · rw [hj, Function.update_self]
      · rw [Function.update_of_ne hj, Merkle.node_update_off _ _ _ _ _ _ hj]
    rw [hnew] at hst₁
    have hsib : pos / 2 ^ level ^^^ 1 < 2 ^ (t₁.depth - level) := by
      have hpow : 2 ^ (t₁.depth - level) = 2 * 2 ^ (t₁.depth - level - 1) := by
        rw [← Nat.pow_succ', show (t₁.depth - level - 1).succ = t₁.depth - level by omega]
      rw [hpow]
      exact Merkle.xor_one_lt (by rw [← hpow, hd₁]; exact hidx)
    have hget := getNode_spec ht₁ (by omega) hsib hst₁ (by
      intro hne
      obtain ⟨k, rfl⟩ := Nat.exists_eq_succ_of_ne_zero hne
      exact hashLR_ne_zero hz _ _)
    obtain ⟨t', hloop, hd', ht', hst'⟩ := @ih t₁ (level + 1) (by rwa [hd₁])
      (by omega) ht₁
      (by
        intro l hlt
        rcases Nat.lt_succ_iff_lt_or_eq.mp hlt with h | rfl
        · exact hframe l _ h.ne (hlow l h)
        · exact hst₁)
      (by
        intro l hle hlt
        exact hframe l _ (by omega) (hhigh l (by omega) (by omega)))
    refine ⟨t', ?_, by omega, ht', by rwa [hd₁] at hst'⟩
    have hhalf : pos / 2 ^ level / 2 = pos / 2 ^ (level + 1) := by
      rw [Nat.pow_succ, Nat.div_div_eq_div_mul]
    simp only [updateFrom, hupd, hget, bind, Except.bind]
    rw [← hd₁, ← hloop, ← hhalf, ← Merkle.combine_node]
    rfl

section
variable (hz : NeverZero compress) (hr : t.Represents compress leaf)
include hz hr

theorem update_spec (hp : pos < 2 ^ t.depth) :
    ∃ t', t.update compress pos v = .ok t' ∧ t'.depth = t.depth ∧
      t'.Represents compress (Function.update leaf pos v) := by
  obtain ⟨t', hloop, hd, ht, hs⟩ := updateFrom_spec hz hp (Nat.zero_add _) hr.shape
    (by intro l h; omega) (fun l _ h => hr.stores l h)
  refine ⟨{ t' with root := node (hashLR compress) (Function.update leaf pos v) t.depth 0 },
    ?_, hd, { ht with }, ?_, ?_⟩
  · have hstart : node (hashLR compress) (Function.update leaf pos v) 0 (pos / 2 ^ 0) = v := by
      simp [node]
    rw [hstart, Nat.pow_zero, Nat.div_one] at hloop
    simp only [update, not_ge_oneShl hr.shape.depth_lt hp, if_false, hloop, bind, Except.bind]
    simp
  · intro l hl
    have := hs l (by rw [← hd]; exact hl)
    cases l <;> exact this
  · exact congrArg (fun d => node (hashLR compress) (Function.update leaf pos v) d 0) hd.symm

theorem proveFrom_spec (hn : level + n = t.depth) (hi : idx < 2 ^ n) :
    t.proveFrom n level idx = .ok (siblings (hashLR compress) leaf n level idx) := by
  induction n generalizing level idx with
  | zero =>
    obtain rfl : idx = 0 := by simpa using hi
    rfl
  | succ n ih =>
    have hsib : idx ^^^ 1 < 2 ^ (t.depth - level) := by
      rw [show t.depth - level = n + 1 by omega, Nat.pow_succ']
      exact Merkle.xor_one_lt (by rwa [← Nat.pow_succ'])
    have hget := getNode_spec hr.shape (by omega : level < t.depth) hsib
      (hr.stores level (by omega))
      (by
        intro hne
        obtain ⟨k, rfl⟩ := Nat.exists_eq_succ_of_ne_zero hne
        exact hashLR_ne_zero hz _ _)
    have hrest := @ih (level + 1) (idx / 2) (by omega) (by omega)
    simp only [proveFrom, hget, hrest, bind, Except.bind]
    rfl

theorem mustProve_spec (hp : pos < 2 ^ t.depth) :
    t.mustProve pos =
      .ok { path := .ofNat pos, siblings := siblings (hashLR compress) leaf t.depth 0 pos } := by
  simp only [mustProve, not_ge_oneShl hr.shape.depth_lt hp, if_false,
    proveFrom_spec hz hr (Nat.zero_add _) hp, bind, Except.bind]

end

end Tree

variable (compress) in
theorem emptyLevels_spec (n l : Nat) :
    (emptyLevels compress n (emptyNode compress l)).2 = emptyNode compress (l + n + 1) ∧
      ∀ k < n, (emptyLevels compress n (emptyNode compress l)).1[k]? =
        some (emptyNode compress (l + k + 1)) := by
  induction n generalizing l with
  | zero => exact ⟨(emptyNode_succ l).symm, by omega⟩
  | succ n ih =>
    obtain ⟨hroot, hnodes⟩ := ih (l + 1)
    simp only [emptyLevels, ← emptyNode_succ]
    refine ⟨by rw [hroot, show l + 1 + n + 1 = l + (n + 1) + 1 by omega], ?_⟩
    intro k hk
    cases k with
    | zero => rfl
    | succ k =>
      rw [List.getElem?_cons_succ, hnodes k (by omega),
        show l + 1 + k + 1 = l + (k + 1) + 1 by omega]

variable (compress) in
theorem newEmptyTree_spec (hd : 0 < d) (hlt : d < 63) :
    (newEmptyTree compress d).depth = d ∧
      (newEmptyTree compress d).Represents compress fun _ => emptyLeaf := by
  obtain ⟨hroot, hnodes⟩ := emptyLevels_spec compress (d - 1) 0
  refine ⟨rfl, ⟨hd, hlt, by simp [newEmptyTree], ?_⟩, ?_, ?_⟩
  · intro l hl
    have := hnodes l hl
    rw [Nat.zero_add] at this
    exact this
  · intro l hl
    cases l with
    | zero => exact ⟨Nat.zero_le _, fun j => rfl⟩
    | succ l =>
      refine ⟨[], ?_, Nat.zero_le _, ?_⟩
      · have : l < d - 1 := by simp [newEmptyTree] at hl; omega
        simp [newEmptyTree, this]
      · intro j
        exact node_const _ _ _ _
  · rw [show 0 + (d - 1) + 1 = d by omega] at hroot
    exact hroot

-- Proofs

theorem recoverFrom_nat (x : KoalaOctuplet) (i : Nat) (ss : List KoalaOctuplet) :
    recoverFrom compress x i ss =
      (fold (hashLR compress) x i ss, ((i / 2 ^ ss.length : Nat) : Int)) := by
  induction ss generalizing x i with
  | nil => simp [recoverFrom, fold]
  | cons s ss ih =>
    have hhalf : ((i : Int) / 2) = ((i / 2 : Nat) : Int) := rfl
    have hpar : ((i : Int) % 2 = 1) ↔ i % 2 = 1 := by omega
    simp only [recoverFrom, hhalf, hpar, ih, fold, List.length_cons]
    rw [Nat.div_div_eq_div_mul, Nat.pow_succ']
    rfl

variable (compress) in
theorem recoverFrom_neg (x : KoalaOctuplet) (hi : i < 0) (ss : List KoalaOctuplet) :
    (recoverFrom compress x i ss).2 < 0 := by
  induction ss generalizing x i with
  | nil => exact hi
  | cons s ss ih => exact ih _ (by omega)

theorem recoverRoot_ok :
    recoverRoot compress p leaf = .ok root ↔
      ∃ i : Nat, p.path.toInt = i ∧ i < 2 ^ p.siblings.length ∧
        fold (hashLR compress) leaf i p.siblings = root := by
  simp only [recoverRoot]
  constructor
  · intro h
    split at h
    · cases h
    · rename_i hidx
      by_cases hneg : p.path.toInt < 0
      · have := recoverFrom_neg compress leaf hneg p.siblings
        omega
      · obtain ⟨i, hi⟩ := Int.eq_ofNat_of_zero_le (not_lt.mp hneg)
        rw [hi, recoverFrom_nat] at h hidx
        refine ⟨i, hi, ?_, Except.ok.inj h⟩
        have h0 : i / 2 ^ p.siblings.length = 0 := Int.natCast_eq_zero.mp (not_not.mp hidx)
        exact (Nat.div_eq_zero_iff_lt (Nat.two_pow_pos _)).mp h0
  · rintro ⟨i, hi, hlt, rfl⟩
    rw [hi, recoverFrom_nat, Nat.div_eq_of_lt hlt]
    simp

theorem verify_ok :
    verify compress p leaf root = .ok true ↔ recoverRoot compress p leaf = .ok root := by
  unfold verify
  cases recoverRoot compress p leaf <;> simp [bind, Except.bind]

end StatusNetwork.Prover
